import Qlever.SetOfIntervals
import Qlever.ValueIdNumericRanges

/-! A filter whose expression consists of comparisons of one variable with constants. If the input is sorted by the variable, then each comparison
is evaluated by binary search, and the logical operators work on sets of intervals (`RelationalExpressions.cpp`). Otherwise each row has one
of three values, as in `NumericBinaryExpressions.cpp` and `NumericUnaryExpressions.cpp`.
-/
namespace Qlever.FilterIntervals
open Qlever.Library Qlever.ValueIdComparators List SetOfIntervals

inductive TernaryBool
  | True
  | False
  | Undef
  deriving DecidableEq, Repr

/-- A comparison of the variable with a constant on the right side, or a combination of expressions. -/
inductive Expression (Word : Type)
  | relational (comparison : Comparison) (constant : ValueId Word)
  | and (left right : Expression Word)
  | or (left right : Expression Word)
  | not (child : Expression Word)

namespace Expression
variable {Word : Type}

def subexpressions : Expression Word → List (Expression Word)
  | relational comparison constant => [relational comparison constant]
  | and left right => and left right :: (left.subexpressions ++ right.subexpressions)
  | or left right => or left right :: (left.subexpressions ++ right.subexpressions)
  | not child => not child :: child.subexpressions

theorem self_mem (expression : Expression Word) : expression ∈ expression.subexpressions := by
  cases expression <;> simp [subexpressions]

end Expression

section Evaluation
variable {Word : Type} [LinearOrder Word] (vocab : Vocabulary Word)

def andLambda : TernaryBool → TernaryBool → TernaryBool
  | .True,.True => .True
  | .False,_ => .False
  | _,.False => .False
  | _,_ => .Undef

def orLambda : TernaryBool → TernaryBool → TernaryBool
  | .True,_ => .True
  | _,.True => .True
  | .False,.False => .False
  | _,_ => .Undef

def unaryNegate : TernaryBool → TernaryBool
  | .Undef => .Undef
  | .True => .False
  | .False => .True

/-- `toValueId` and the `EffectiveBooleanValueGetter`. -/
def toTernaryBool : ComparisonResult → TernaryBool
  | .Undef => .Undef
  | .False => .False
  | .True => .True

def evaluateRow (id : ValueId Word) : Expression Word → TernaryBool
  | .relational comparison constant => toTernaryBool (compareIds vocab id constant comparison)
  | .and left right => andLambda (evaluateRow id left) (evaluateRow id right)
  | .or left right => orLambda (evaluateRow id left) (evaluateRow id right)
  | .not child => unaryNegate (evaluateRow id child)

/-- `evaluateWithBinarySearch`, and the specialized functions for operands that are all sets of intervals. -/
def evaluateIntervals (ids : List (ValueId Word)) : Expression Word → Option (List Interval)
  | .relational comparison constant => getRangesForId vocab ids constant comparison true
  | .and left right => do intersection (← evaluateIntervals ids left) (← evaluateIntervals ids right)
  | .or left right => do union (← evaluateIntervals ids left) (← evaluateIntervals ids right)
  | .not child => do complement (← evaluateIntervals ids child)

end Evaluation

section Filter
variable {Row : Type}

def insertAtEnd (input resultTable : List Row) (interval : Interval) : List Row :=
  resultTable ++ (input.drop interval.1).take (min interval.2 input.length - interval.1)

/-- The sum of the sizes as a `size_t`. -/
def addIntervalSize (inputSize sum : Nat) (interval : Interval) : Nat :=
  (sum + (min interval.2 inputSize + 2 ^ 64 - interval.1)) % 2 ^ 64

/-- The first case of `computeFilterImpl`. -/
def filterByIntervals (resultTable input : List Row) (intervals : List Interval) : Option (List Row) :=
  let totalSize := intervals.foldl (addIntervalSize input.length) resultTable.length
  if resultTable.isEmpty && totalSize = input.length then some input
  else
    let result := intervals.foldl (insertAtEnd input) resultTable
    if result.length = totalSize then some result else none

variable {Word : Type} [LinearOrder Word] (vocab : Vocabulary Word)

def filterByBinarySearch (getId : Row → ValueId Word) (expression : Expression Word) (resultTable input : List Row) : Option (List Row) := do
  filterByIntervals resultTable input (← evaluateIntervals vocab (input.map getId) expression)

/-- The general case of `computeFilterImpl`. -/
def filterByRows (getId : Row → ValueId Word) (expression : Expression Word) (resultTable input : List Row) : List Row :=
  resultTable ++ input.filter (fun row => evaluateRow vocab (getId row) expression = .True)

end Filter

section Intervals
variable {Row : Type} {input : List Row} {keep : Row → Bool} {intervals : List Interval}

theorem flatMap_slices (ordered : Ordered intervals) {start : Nat} (after : ∀ interval ∈ intervals,start ≤ interval.1)
    (covers : ∀ i row,input[i]? = some row → start ≤ i → (Covers intervals i ↔ keep row = true)) :
    intervals.flatMap (fun interval => (input.drop interval.1).take (min interval.2 input.length - interval.1)) = (input.drop start).filter keep := by
  induction intervals generalizing start with
  | nil =>
    symm
    rw [flatMap_nil,filter_eq_nil_iff]
    intro row isMember
    obtain ⟨i,isRow⟩ := mem_iff_getElem?.mp isMember
    rw [List.getElem?_drop] at isRow
    rw [← covers _ row isRow (Nat.le_add_right _ _)]
    exact covers_nil
  | cons interval rest ih =>
    have nonempty := ordered.head
    have atStart := after interval mem_cons_self
    have later := ih ordered.tail (fun other isMember => ordered.head_le isMember) (by
      intro i row isRow above
      rw [← covers i row isRow (by omega),covers_cons]
      constructor
      · exact Or.inr
      · rintro (inside | covered)
        · omega
        · exact covered)
    have before : ((input.drop start).take (interval.1 - start)).filter keep = [] := by
      rw [filter_eq_nil_iff]
      intro row isMember
      obtain ⟨i,isRow⟩ := mem_iff_getElem?.mp isMember
      rw [List.getElem?_take] at isRow
      split at isRow
      next small =>
        rw [List.getElem?_drop] at isRow
        rw [← covers _ row isRow (Nat.le_add_right _ _),covers_cons]
        rintro (inside | covered)
        · omega
        · have isLater := ordered.le_of_covers covered
          omega
      next => cases isRow
    have inside : ((input.drop interval.1).take (min interval.2 input.length - interval.1)).filter keep =
        (input.drop interval.1).take (min interval.2 input.length - interval.1) := by
      rw [filter_eq_self]
      intro row isMember
      obtain ⟨i,isRow⟩ := mem_iff_getElem?.mp isMember
      rw [List.getElem?_take] at isRow
      split at isRow
      next small =>
        rw [List.getElem?_drop] at isRow
        rw [← covers _ row isRow (by omega),covers_cons]
        left
        omega
      next => cases isRow
    have split : input.drop start = (input.drop start).take (interval.1 - start) ++
        ((input.drop interval.1).take (min interval.2 input.length - interval.1) ++ input.drop interval.2) := by
      have rest : (input.drop interval.1).drop (min interval.2 input.length - interval.1) = input.drop interval.2 := by
        rw [drop_drop]
        rcases Nat.le_total interval.2 input.length with inside | outside
        · congr 1
          omega
        · rw [drop_eq_nil_of_le outside,drop_eq_nil_of_le (by omega)]
      rw [← rest,take_append_drop,← Nat.add_sub_cancel' atStart,Nat.add_sub_cancel_left,← drop_drop,take_append_drop]
    rw [flatMap_cons,later,split,filter_append,filter_append,before,inside,nil_append]

theorem foldl_insertAtEnd (intervals : List Interval) (resultTable : List Row) :
    intervals.foldl (insertAtEnd input) resultTable =
      resultTable ++ intervals.flatMap (fun interval => (input.drop interval.1).take (min interval.2 input.length - interval.1)) := by
  induction intervals generalizing resultTable with
  | nil => simp
  | cons interval rest ih => simp [ih,insertAtEnd]

theorem foldl_addIntervalSize (starts : ∀ interval ∈ intervals,interval.1 ≤ min interval.2 input.length) (sum : Nat)
    (small : (sum + (intervals.flatMap (fun interval => (input.drop interval.1).take (min interval.2 input.length - interval.1))).length) < 2 ^ 64) :
    intervals.foldl (addIntervalSize input.length) sum =
      sum + (intervals.flatMap (fun interval => (input.drop interval.1).take (min interval.2 input.length - interval.1))).length := by
  induction intervals generalizing sum with
  | nil => simp
  | cons interval rest ih =>
    have start := starts interval mem_cons_self
    simp only [flatMap_cons,length_append,length_take,length_drop,foldl_cons] at small ⊢
    have size : addIntervalSize input.length sum interval = sum + min (min interval.2 input.length - interval.1) (input.length - interval.1) := by
      unfold addIntervalSize
      omega
    rw [size,ih (forall_mem_cons.mp starts).2 _ (by omega)]
    omega

theorem filterByIntervals_eq (separated : Separated intervals) (resultTable : List Row)
    (small : resultTable.length + input.length < 2 ^ 64)
    (constant : ∀ i j,input.length ≤ i → i ≤ j → Covers intervals j → Covers intervals i)
    (covers : ∀ i row,input[i]? = some row → (Covers intervals i ↔ keep row = true)) :
    filterByIntervals resultTable input intervals = some (resultTable ++ input.filter keep) := by
  have slices := flatMap_slices separated.ordered (fun interval _ => Nat.zero_le _) (fun i row isRow _ => covers i row isRow)
  rw [drop_zero] at slices
  have starts : ∀ interval ∈ intervals,interval.1 ≤ min interval.2 input.length := by
    intro interval isMember
    have nonempty := separated.nonempty interval isMember
    have inside : interval.1 ≤ input.length := by
      apply separated.start_le isMember
      intro i above below
      exact constant i interval.1 above below.le ⟨interval,isMember,le_refl _,nonempty⟩
    omega
  have fewer := length_filter_le keep input
  have total := foldl_addIntervalSize starts resultTable.length (by rw [slices]; omega)
  rw [slices] at total
  rw [filterByIntervals,total,foldl_insertAtEnd,slices]
  split
  next whole =>
    simp only [Bool.and_eq_true,List.isEmpty_iff,decide_eq_true_eq] at whole
    obtain ⟨rfl,same⟩ := whole
    simp only [length_nil,Nat.zero_add] at same
    rw [nil_append,filter_eq_self.mpr (length_filter_eq_length_iff.mp same)]
  next => rw [if_pos (length_append)]

end Intervals

section Strategies
variable {Word : Type} [LinearOrder Word] (vocab : Vocabulary Word)

/-- The rows that the sets of intervals keep: a comparison is true or not, and a negation turns the one into the other. -/
def keeps (id : ValueId Word) : Expression Word → Bool
  | .relational comparison constant =>
    areTypesCompatible (getDatatype id) (getDatatype constant) && comparison.holds (orderByBits vocab id constant)
  | .and left right => keeps id left && keeps id right
  | .or left right => keeps id left || keeps id right
  | .not child => !keeps id child

def SafeConstants (ids : List (ValueId Word)) : Expression Word → Prop
  | .relational _ constant => FitsData constant ∧ ∀ value,getNumeric constant = some value → ∀ id ∈ ids,NanSafe value id
  | .and left right => SafeConstants ids left ∧ SafeConstants ids right
  | .or left right => SafeConstants ids left ∧ SafeConstants ids right
  | .not child => SafeConstants ids child

def ComparesBooleans (id : ValueId Word) : Expression Word → Prop
  | .relational comparison constant => ∀ bits bits',id = .encoded .Bool bits → constant = .encoded .Bool bits' →
      comparison.holds (some (cmp bits bits')) = comparison.holds (some (cmp (boolFromData bits) (boolFromData bits')))
  | .and left right => ComparesBooleans id left ∧ ComparesBooleans id right
  | .or left right => ComparesBooleans id left ∧ ComparesBooleans id right
  | .not child => ComparesBooleans id child

def NegatesDefined (id : ValueId Word) : Expression Word → Prop
  | .relational _ _ => True
  | .and left right => NegatesDefined id left ∧ NegatesDefined id right
  | .or left right => NegatesDefined id left ∧ NegatesDefined id right
  | .not child => evaluateRow vocab id child ≠ .Undef ∧ NegatesDefined id child

variable {vocab}

structure IsResult (ids : List (ValueId Word)) (keep : ValueId Word → Bool) (intervals : List Interval) : Prop where
  separated : Separated intervals
  below : ∀ i,Covers intervals i → i < upperBound
  constant : ∀ i j,ids.length ≤ i → ids.length ≤ j → j < upperBound → Covers intervals i → Covers intervals j
  covers : ∀ i id,ids[i]? = some id → (Covers intervals i ↔ keep id = true)

variable {ids : List (ValueId Word)}

theorem evaluateIntervals_isResult (sorted : SortedIds vocab ids) (fits : ∀ id ∈ ids,FitsData id)
    (small : ids.length ≤ upperBound) (expression : Expression Word) (safe : SafeConstants ids expression) :
    ∃ intervals,evaluateIntervals vocab ids expression = some intervals ∧ IsResult ids (fun id => keeps vocab id expression) intervals := by
  induction expression with
  | relational comparison constant =>
    obtain ⟨ranges,isRanges,separated,bounded,covers⟩ := getRangesForId_spec sorted fits safe.1 safe.2 comparison
    refine ⟨ranges,isRanges,separated,?_,?_,?_⟩
    · intro i covered
      exact (bounded i covered).trans_le small
    · intro i j above _ _ covered
      exact absurd (bounded i covered) (by omega)
    · intro i id isId
      rw [covers i id isId,keeps,Bool.and_eq_true]
  | and left right ihLeft ihRight =>
    obtain ⟨first,isFirst,left⟩ := ihLeft safe.1
    obtain ⟨second,isSecond,right⟩ := ihRight safe.2
    obtain ⟨result,isResult,separated,covers⟩ := intersection_spec left.separated.ordered right.separated.ordered
    refine ⟨result,by rw [evaluateIntervals,isFirst,isSecond]; exact isResult,separated,?_,?_,?_⟩
    · intro i covered
      exact left.below i ((covers i).mp covered).1
    · intro i j above above' below covered
      obtain ⟨inLeft,inRight⟩ := (covers i).mp covered
      exact (covers j).mpr ⟨left.constant i j above above' below inLeft,right.constant i j above above' below inRight⟩
    · intro i id isId
      rw [covers,left.covers i id isId,right.covers i id isId,keeps,Bool.and_eq_true]
  | or left right ihLeft ihRight =>
    obtain ⟨first,isFirst,left⟩ := ihLeft safe.1
    obtain ⟨second,isSecond,right⟩ := ihRight safe.2
    obtain ⟨result,isResult,separated,covers⟩ := union_spec left.separated.ordered right.separated.ordered
    refine ⟨result,by rw [evaluateIntervals,isFirst,isSecond]; exact isResult,separated,?_,?_,?_⟩
    · intro i covered
      exact ((covers i).mp covered).elim (left.below i) (right.below i)
    · intro i j above above' below covered
      exact (covers j).mpr (((covers i).mp covered).imp (left.constant i j above above' below) (right.constant i j above above' below))
    · intro i id isId
      rw [covers,left.covers i id isId,right.covers i id isId,keeps,Bool.or_eq_true]
  | not child ih =>
    obtain ⟨set,isSet,child⟩ := ih safe
    have bounded : ∀ interval ∈ set,interval.2 ≤ upperBound := by
      intro interval isMember
      have nonempty := child.separated.nonempty interval isMember
      have below := child.below (interval.2 - 1) ⟨interval,isMember,by omega,by omega⟩
      omega
    obtain ⟨result,isResult,separated,covers⟩ := complement_spec child.separated.ordered bounded
    refine ⟨result,by rw [evaluateIntervals,isSet]; exact isResult,separated,?_,?_,?_⟩
    · intro i covered
      exact ((covers i).mp covered).1
    · intro i j above above' below covered
      obtain ⟨small',notCovered⟩ := (covers i).mp covered
      exact (covers j).mpr ⟨below,fun isCovered => notCovered (child.constant j i above' above small' isCovered)⟩
    · intro i id isId
      obtain ⟨inside,_⟩ := List.getElem?_eq_some_iff.mp isId
      rw [covers,child.covers i id isId,keeps,Bool.not_eq_true',Bool.not_eq_true]
      constructor
      · exact And.right
      · exact fun notKept => ⟨by omega,notKept⟩

variable {Row : Type} {getId : Row → ValueId Word} {resultTable input : List Row}

theorem filterByBinarySearch_eq (sorted : SortedIds vocab (input.map getId)) (fits : ∀ row ∈ input,FitsData (getId row))
    (small : resultTable.length + input.length < 2 ^ 64) (expression : Expression Word) (safe : SafeConstants (input.map getId) expression) :
    filterByBinarySearch vocab getId expression resultTable input =
      some (resultTable ++ input.filter (fun row => keeps vocab (getId row) expression)) := by
  have upper : upperBound = 2 ^ 64 - 1 := rfl
  obtain ⟨intervals,isIntervals,isResult⟩ := evaluateIntervals_isResult sorted (by simpa using fits) (by rw [length_map]; omega) expression safe
  rw [filterByBinarySearch,isIntervals]
  apply filterByIntervals_eq isResult.separated resultTable small
  · intro i j above before covered
    have below := isResult.below j covered
    exact isResult.constant j i (by rw [length_map]; omega) (by rw [length_map]; omega) (by omega) covered
  · intro i row isRow
    exact isResult.covers i (getId row) (by rw [List.getElem?_map,isRow]; rfl)

theorem relational_true_iff (id constant : ValueId Word) (comparison : Comparison) :
    evaluateRow vocab id (.relational comparison constant) = .True ↔
      areTypesCompatible (getDatatype id) (getDatatype constant) = true ∧ comparison.holds (orderOfValues vocab id constant) = true := by
  rw [evaluateRow,compareIds]
  split
  next compatible => cases holds : comparison.holds (orderOfValues vocab id constant) <;> simp [fromBool,toTernaryBool,compatible]
  next incompatible => simp [toTernaryBool,incompatible]

theorem relational_agrees_iff (id constant : ValueId Word) (comparison : Comparison) :
    (keeps vocab id (.relational comparison constant) = true ↔ evaluateRow vocab id (.relational comparison constant) = .True) ↔
      ComparesBooleans id (.relational comparison constant) := by
  rw [relational_true_iff,keeps,Bool.and_eq_true]
  by_cases bools : ∃ bits bits',id = .encoded .Bool bits ∧ constant = .encoded .Bool bits'
  · obtain ⟨bits,bits',rfl,rfl⟩ := bools
    have compatible : areTypesCompatible (getDatatype (.encoded .Bool bits : ValueId Word)) (getDatatype (.encoded .Bool bits' : ValueId Word)) = true := rfl
    have byValue : orderOfValues vocab (.encoded .Bool bits) (.encoded .Bool bits') = some (cmp (boolFromData bits) (boolFromData bits')) := rfl
    rw [compatible,orderByBits_bool,byValue]
    simp only [true_and]
    constructor
    · rintro same bits₁ bits₂ isFirst isSecond
      cases isFirst
      cases isSecond
      exact Bool.eq_iff_iff.mpr same
    · intro compares
      exact Bool.eq_iff_iff.mp (compares bits bits' rfl rfl)
  · have notBool : ∀ bits bits',id = .encoded .Bool bits → constant ≠ .encoded .Bool bits' :=
      fun bits bits' isId isConstant => bools ⟨bits,bits',isId,isConstant⟩
    rw [orderOfValues_eq id constant notBool]
    constructor
    · intro _ bits bits' isId isConstant
      exact absurd isConstant (notBool bits bits' isId)
    · intro _
      rfl

theorem and_true_iff (first second : TernaryBool) : andLambda first second = .True ↔ first = .True ∧ second = .True := by
  cases first <;> cases second <;> decide

theorem or_true_iff (first second : TernaryBool) : orLambda first second = .True ↔ first = .True ∨ second = .True := by
  cases first <;> cases second <;> decide

theorem not_agrees_iff {operand : TernaryBool} {kept : Bool} (agrees : kept = true ↔ operand = .True) :
    ((!kept) = true ↔ unaryNegate operand = .True) ↔ operand ≠ .Undef := by
  cases kept <;> cases operand <;> simp [unaryNegate] at agrees ⊢

theorem row_agrees_iff (id : ValueId Word) (expression : Expression Word) :
    (∀ part ∈ expression.subexpressions,(keeps vocab id part = true ↔ evaluateRow vocab id part = .True)) ↔
      ComparesBooleans id expression ∧ NegatesDefined vocab id expression := by
  induction expression with
  | relational comparison constant =>
    simp only [Expression.subexpressions,mem_singleton,forall_eq,NegatesDefined,and_true]
    exact relational_agrees_iff id constant comparison
  | and left right ihLeft ihRight | or left right ihLeft ihRight =>
    simp only [Expression.subexpressions,mem_cons,mem_append,or_imp,forall_and,forall_eq,ihLeft,ihRight,ComparesBooleans,NegatesDefined]
    constructor
    · rintro ⟨_,⟨first,second⟩,third,fourth⟩
      exact ⟨⟨first,third⟩,second,fourth⟩
    · rintro ⟨⟨first,third⟩,second,fourth⟩
      have atLeft := ihLeft.mpr ⟨first,second⟩ left left.self_mem
      have atRight := ihRight.mpr ⟨third,fourth⟩ right right.self_mem
      refine ⟨?_,⟨first,second⟩,third,fourth⟩
      simp only [keeps,evaluateRow,Bool.and_eq_true,and_true_iff,Bool.or_eq_true,or_true_iff,atLeft,atRight]
  | not child ih =>
    simp only [Expression.subexpressions,mem_cons,forall_eq_or_imp,ih,ComparesBooleans,NegatesDefined]
    constructor
    · rintro ⟨agrees,compares,defined⟩
      have atChild := ih.mpr ⟨compares,defined⟩ child child.self_mem
      exact ⟨compares,(not_agrees_iff atChild).mp agrees,defined⟩
    · rintro ⟨compares,isDefined,defined⟩
      have atChild := ih.mpr ⟨compares,defined⟩ child child.self_mem
      exact ⟨(not_agrees_iff atChild).mpr isDefined,compares,defined⟩

omit [LinearOrder Word] in
theorem SafeConstants.part {expression part : Expression Word} (safe : SafeConstants ids expression)
    (isPart : part ∈ expression.subexpressions) : SafeConstants ids part := by
  induction expression with
  | relational comparison constant =>
    obtain rfl := mem_singleton.mp isPart
    exact safe
  | and left right ihLeft ihRight | or left right ihLeft ihRight =>
    rcases mem_cons.mp isPart with rfl | isPart
    · exact safe
    · rcases mem_append.mp isPart with isLeft | isRight
      · exact ihLeft safe.1 isLeft
      · exact ihRight safe.2 isRight
  | not child ih =>
    rcases mem_cons.mp isPart with rfl | isPart
    · exact safe
    · exact ih safe isPart

end Strategies

def oneWord : Vocabulary Nat := ⟨[0],by simp⟩

/-- The expression `!(?x < 5)`. -/
def notLessThanFive : Expression Nat := .not (.relational .LT (.encoded .Int 5))

section OneRow
variable (row : ValueId Nat)

theorem oneRow_sorted : SortedIds oneWord ([row].map id) := pairwise_singleton _ _

theorem oneRow_safe (notDouble : getDatatype row ≠ .encoded .Double) : SafeConstants ([row].map id) notLessThanFive := by
  refine ⟨show 5 < 2 ^ 60 by decide,?_⟩
  intro value _ other isMember isDouble
  rw [mem_singleton.mp isMember] at isDouble
  exact absurd isDouble notDouble

end OneRow

end Qlever.FilterIntervals
