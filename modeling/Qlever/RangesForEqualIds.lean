import Qlever.RangesForId

/-! The comparisons with an interval of IDs that are considered to be equal, and the comparisons with a value that is no number. The interval
of a word that is not in the vocabulary is empty.
-/
namespace Qlever.ValueIdComparators
open Qlever.Library

section Model
variable {Word : Type} [LinearOrder Word] (vocab : Vocabulary Word)

/-- The overload of `getRangesForIndexTypes` for an interval of IDs. -/
def getRangesForInterval (ids : List (ValueId Word)) (valueIdBegin valueIdEnd : ValueId Word) (comparison : Comparison) : Option (List Interval) := do
  let (beginOfType,endOfType) ← getRangeForDatatype ids (getDatatype valueIdBegin)
  let eqBegin ← search (fun id => compareByBits vocab id valueIdBegin) ids beginOfType endOfType
  let eqEnd ← search (fun id => compareByBits vocab id valueIdEnd) ids beginOfType endOfType
  let filter : RangeFilter := ⟨comparison,[]⟩
  return ((filter.addSmaller beginOfType eqBegin).addEqual eqBegin eqEnd).addGreater eqEnd endOfType |>.result

def Datatype.hasIntervals (datatype : Datatype) : Bool :=
  datatype = .VocabIndex || datatype = .LocalVocabIndex || datatype = .encoded .WordVocabIndex || datatype = .encoded .TextRecordIndex

def getRangesForEqualIds (ids : List (ValueId Word)) (valueIdBegin valueIdEnd : ValueId Word) (comparison : Comparison) : Option (List Interval) :=
  let typeBegin := getDatatype valueIdBegin
  let typeEnd := getDatatype valueIdEnd
  if valueIdBegin.compare vocab valueIdEnd = .gt then none
  else if !(typeBegin = typeEnd || (typeBegin.isString && typeEnd.isString)) then none
  else if typeBegin.hasIntervals then
    (getRangesForInterval vocab ids valueIdBegin valueIdEnd comparison).map (simplifyRanges · true)
  else none

/-- The lambda `compareEqual` of `compareWithEqualIds`. -/
def compareEqual (a bBegin bEnd : ValueId Word) : Bool :=
  compareIds vocab a bBegin .GE = .True && compareIds vocab a bEnd .LT = .True

/-- `compareWithEqualIds` in the mode `AlwaysUndef`. -/
def compareWithEqualIds (a bBegin bEnd : ValueId Word) (comparison : Comparison) : Option ComparisonResult :=
  if bBegin.compare vocab bEnd = .gt then none
  else
    let typesAreCompatible := areTypesCompatible (getDatatype a) (getDatatype bBegin)
    match comparison with
    | .LT => some (compareIds vocab a bBegin .LT)
    | .LE => some (compareIds vocab a bEnd .LT)
    | .EQ => some (if typesAreCompatible then fromBool (compareEqual vocab a bBegin bEnd) else .Undef)
    | .NE => some (if typesAreCompatible then fromBool (!compareEqual vocab a bBegin bEnd) else .Undef)
    | .GE => some (compareIds vocab a bBegin .GE)
    | .GT => some (compareIds vocab a bEnd .GE)

end Model

section Interval
variable {Word : Type} [LinearOrder Word] {vocab : Vocabulary Word} {ids : List (ValueId Word)} {valueIdBegin valueIdEnd : ValueId Word}

/-- The intervals for which the contract checks of `getRangesForEqualIds` pass. -/
structure IsInterval (vocab : Vocabulary Word) (valueIdBegin valueIdEnd : ValueId Word) : Prop where
  le : valueIdBegin.value vocab ≤ valueIdEnd.value vocab
  sameGroup : (getDatatype valueIdBegin).group = (getDatatype valueIdEnd).group
  hasIntervals : (getDatatype valueIdBegin).hasIntervals = true

def orderToInterval (vocab : Vocabulary Word) (valueIdBegin valueIdEnd id : ValueId Word) : Ordering :=
  if id.value vocab < valueIdBegin.value vocab then .lt else if id.value vocab < valueIdEnd.value vocab then .eq else .gt

theorem getRangesForInterval_spec (sorted : SortedIds vocab ids) (le : valueIdBegin.value vocab ≤ valueIdEnd.value vocab) :
    ∃ pieces,(∀ comparison,getRangesForInterval vocab ids valueIdBegin valueIdEnd comparison = some (pieceRanges comparison pieces)) ∧
      Classified ids (fun id => (getDatatype id).group = (getDatatype valueIdBegin).group)
        (fun id => some (orderToInterval vocab valueIdBegin valueIdEnd id)) pieces := by
  obtain ⟨⟨first,last⟩,isRange,firstLe,inside,exactly⟩ := getRangeForDatatype_spec sorted.grouped (getDatatype valueIdBegin)
  have searched : ∀ bound : ValueId Word,∃ point,search (fun id => compareByBits vocab id bound) ids first last = some point ∧ first ≤ point ∧
      point ≤ last ∧ ∀ i id,ids[i]? = some id → first ≤ i → i < last → (i < point ↔ id.value vocab < bound.value vocab) := by
    intro bound
    obtain ⟨point,isPoint,splits⟩ : ∃ point,search (fun id => compareByBits vocab id bound) ids first last = some point ∧
        Splits (fun id => compareByBits vocab id bound) ids first last point := by
      apply search_spec firstLe inside
      intro i j x y above before below isFirst isSecond
      rw [compareByBits_iff,compareByBits_iff]
      exact (sorted.le before isFirst isSecond).trans_lt
    refine ⟨point,isPoint,splits.lower,splits.upper,?_⟩
    intro i id isId above below
    rw [← compareByBits_iff]
    constructor
    · exact splits.before i id isId above
    · intro holds
      by_contra after
      rw [splits.after i id isId (by omega) below] at holds
      cases holds
  obtain ⟨eqBegin,isBegin,lower,upper,before⟩ := searched valueIdBegin
  obtain ⟨eqEnd,isEnd,lower',upper',after⟩ := searched valueIdEnd
  have middle : eqBegin ≤ eqEnd := by
    by_contra reversed
    have isId := List.getElem?_eq_getElem (show eqEnd < ids.length by omega)
    have less := (before _ _ isId lower' (by omega)).mp (by omega)
    exact absurd ((after _ _ isId lower' (by omega)).mpr (less.trans_le le)) (by omega)
  have order : ∀ id,(some (orderToInterval vocab valueIdBegin valueIdEnd id) : Option Ordering) =
      some (if id.value vocab < valueIdBegin.value vocab then .lt else if id.value vocab < valueIdEnd.value vocab then .eq else .gt) := fun id => rfl
  have smaller : Cut (fun id => some (orderToInterval vocab valueIdBegin valueIdEnd id)) ids first eqBegin [(some .lt,(first,eqBegin))] := by
    apply cut_single lower
    intro i id isId above below
    rw [order,if_pos ((before i id isId above (by omega)).mp below)]
  have equal : Cut (fun id => some (orderToInterval vocab valueIdBegin valueIdEnd id)) ids eqBegin eqEnd [(some .eq,(eqBegin,eqEnd))] := by
    apply cut_single middle
    intro i id isId above below
    rw [order,if_neg ((before i id isId (by omega) (by omega)).not.mp (by omega)),if_pos ((after i id isId (by omega) (by omega)).mp below)]
  have greater : Cut (fun id => some (orderToInterval vocab valueIdBegin valueIdEnd id)) ids eqEnd last [(some .gt,(eqEnd,last))] := by
    apply cut_single upper'
    intro i id isId above below
    rw [order,if_neg ((before i id isId (by omega) below).not.mp (by omega)),if_neg ((after i id isId (by omega) below).not.mp (by omega))]
  refine ⟨_,?_,(smaller.append (equal.append greater middle upper') lower (middle.trans upper')).classified inside exactly⟩
  intro comparison
  rw [getRangesForInterval,isRange]
  simp only [Option.bind_eq_bind,Option.bind_some,isBegin,isEnd,RangeFilter.addSmaller_eq,RangeFilter.addEqual_eq,RangeFilter.addGreater_eq,
    List.nil_append,List.append_assoc,← pieceRanges_append]
  rfl

theorem not_number_of_hasIntervals {datatype : Datatype} (hasIntervals : datatype.hasIntervals = true) :
    datatype.isNumeric = false ∧ datatype ≠ .encoded .Undefined := by
  rcases datatype with ⟨_ | _ | _ | _ | _ | _ | _ | _⟩ | _ | _ | _ <;> first | (cases hasIntervals; done) | exact ⟨rfl,by decide⟩

theorem group_hasIntervals {first second : Datatype} (same : first.group = second.group) (hasIntervals : first.hasIntervals = true) :
    second.hasIntervals = true := by
  rcases first with ⟨_ | _ | _ | _ | _ | _ | _ | _⟩ | _ | _ | _ <;> first | (cases hasIntervals; done) | skip
  all_goals
    revert same
    rcases second with ⟨_ | _ | _ | _ | _ | _ | _ | _⟩ | _ | _ | _ <;> decide

section
variable {a b : ValueId Word} (hasIntervals : (getDatatype b).hasIntervals = true)
include hasIntervals

theorem compareIds_hasIntervals (comparison : Comparison) :
    compareIds vocab a b comparison = .True ↔
      (getDatatype a).group = (getDatatype b).group ∧ comparison.holds (some (a.compare vocab b)) = true := by
  obtain ⟨notNumeric,defined⟩ := not_number_of_hasIntervals hasIntervals
  have notNumber : getNumeric b = none := by
    rw [isNumeric_iff] at notNumeric
    exact Option.not_isSome_iff_eq_none.mp (by rw [notNumeric]; exact Bool.false_ne_true)
  have notBool : ∀ bits bits',a = .encoded .Bool bits → b ≠ .encoded .Bool bits' := by
    rintro bits bits' _ rfl
    cases hasIntervals
  have order : orderByBits vocab a b = some (a.compare vocab b) := by
    rw [orderByBits,notNumber]
    cases getNumeric a <;> rfl
  rw [compareIds_true_iff,compatible_iff_group defined notNumeric,orderOfValues_eq a b notBool,order]

theorem less_iff :
    compareIds vocab a b .LT = .True ↔ (getDatatype a).group = (getDatatype b).group ∧ a.value vocab < b.value vocab := by
  rw [compareIds_hasIntervals hasIntervals,ValueId.compare_eq,← cmp_eq_lt_iff]
  cases cmp (a.value vocab) (b.value vocab) <;> simp [Comparison.holds]

theorem greaterEqual_iff :
    compareIds vocab a b .GE = .True ↔ (getDatatype a).group = (getDatatype b).group ∧ ¬ a.value vocab < b.value vocab := by
  rw [compareIds_hasIntervals hasIntervals,ValueId.compare_eq,← cmp_eq_lt_iff]
  cases cmp (a.value vocab) (b.value vocab) <;> simp [Comparison.holds]

end

theorem compareWithEqualIds_iff (interval : IsInterval vocab valueIdBegin valueIdEnd) (id : ValueId Word) (comparison : Comparison) :
    compareWithEqualIds vocab id valueIdBegin valueIdEnd comparison = some .True ↔
      (getDatatype id).group = (getDatatype valueIdBegin).group ∧
        comparison.holds (some (orderToInterval vocab valueIdBegin valueIdEnd id)) = true := by
  have endHasIntervals := group_hasIntervals interval.sameGroup interval.hasIntervals
  obtain ⟨notNumeric,defined⟩ := not_number_of_hasIntervals interval.hasIntervals
  have inOrder : valueIdBegin.compare vocab valueIdEnd ≠ .gt := by
    rw [ValueId.compare_eq,ne_eq,cmp_eq_gt_iff]
    exact not_lt.mpr interval.le
  have isTrue : ∀ b,fromBool b = .True ↔ b = true := by decide
  have beforeEnd : id.value vocab < valueIdBegin.value vocab → id.value vocab < valueIdEnd.value vocab := fun less => less.trans_le interval.le
  have areEqual : compareEqual vocab id valueIdBegin valueIdEnd = true ↔ (getDatatype id).group = (getDatatype valueIdBegin).group ∧
      ¬ id.value vocab < valueIdBegin.value vocab ∧ id.value vocab < valueIdEnd.value vocab := by
    rw [compareEqual,Bool.and_eq_true,decide_eq_true_eq,decide_eq_true_eq,greaterEqual_iff interval.hasIntervals,less_iff endHasIntervals,
      ← interval.sameGroup]
    tauto
  have compatible := @compatible_iff_group (getDatatype id) _ defined notNumeric
  rw [compareWithEqualIds,if_neg inOrder]
  -- The order to the interval is decided by the orders to its two ends.
  cases comparison <;> simp only [Option.some_inj]
  case LT =>
    rw [less_iff interval.hasIntervals,orderToInterval]
    split
    next less => simp [less,Comparison.holds]
    next notLess => split <;> simp [notLess,Comparison.holds]
  case LE =>
    rw [less_iff endHasIntervals,orderToInterval,interval.sameGroup]
    split
    next less => simp [beforeEnd less,Comparison.holds]
    next => split <;> simp_all [Comparison.holds]
  case EQ =>
    split
    next =>
      rw [isTrue,areEqual,orderToInterval]
      split
      next less => simp [less,Comparison.holds]
      next notLess => split <;> simp_all [Comparison.holds]
    next incompatible => simp [compatible.not.mp incompatible]
  case NE =>
    split
    next isCompatible =>
      rw [isTrue,Bool.not_eq_true',← Bool.not_eq_true,areEqual,orderToInterval]
      split
      next less => simp [less,Comparison.holds,compatible.mp isCompatible]
      next notLess => split <;> simp_all [Comparison.holds]
    next incompatible => simp [compatible.not.mp incompatible]
  case GE =>
    rw [greaterEqual_iff interval.hasIntervals,orderToInterval]
    split
    next less => simp [less,Comparison.holds]
    next notLess => split <;> simp [notLess,Comparison.holds]
  case GT =>
    rw [greaterEqual_iff endHasIntervals,orderToInterval,interval.sameGroup]
    split
    next less => simp [beforeEnd less,Comparison.holds]
    next => split <;> simp_all [Comparison.holds]

theorem getRangesForEqualIds_exact (sorted : SortedIds vocab ids) (interval : IsInterval vocab valueIdBegin valueIdEnd) (comparison : Comparison) :
    Exact ids (getRangesForEqualIds vocab ids valueIdBegin valueIdEnd comparison)
      (fun id => compareWithEqualIds vocab id valueIdBegin valueIdEnd comparison = some .True) := by
  obtain ⟨pieces,isRanges,classified⟩ := getRangesForInterval_spec sorted interval.le
  obtain ⟨separated,bounded,covers⟩ := simplified_spec classified comparison
  have inOrder : valueIdBegin.compare vocab valueIdEnd ≠ .gt := by
    rw [ValueId.compare_eq,ne_eq,cmp_eq_gt_iff]
    exact not_lt.mpr interval.le
  have sameTypes : (getDatatype valueIdBegin = getDatatype valueIdEnd || ((getDatatype valueIdBegin).isString && (getDatatype valueIdEnd).isString)) = true := by
    have compatible := (compatible_iff_group (not_number_of_hasIntervals (group_hasIntervals interval.sameGroup interval.hasIntervals)).2
      (not_number_of_hasIntervals (group_hasIntervals interval.sameGroup interval.hasIntervals)).1).mpr interval.sameGroup
    have notNumeric := (not_number_of_hasIntervals interval.hasIntervals).1
    simpa [areTypesCompatible,notNumeric,(not_number_of_hasIntervals interval.hasIntervals).2] using compatible
  refine ⟨_,?_,separated.ordered,?_⟩
  · simp only [getRangesForEqualIds,if_neg inOrder,sameTypes,Bool.not_true,Bool.false_eq_true,if_false,interval.hasIntervals,if_true,isRanges comparison,
      Option.map_some]
  · intro i
    simp only [decide_eq_true_eq,compareWithEqualIds_iff interval]
    constructor
    · intro covered
      have isId := List.getElem?_eq_getElem (bounded i covered)
      exact ⟨_,isId,(covers i _ isId).mp covered⟩
    · rintro ⟨id,isId,accepted⟩
      exact (covers i id isId).mpr accepted

end Interval

section OtherReference
variable {Word : Type} [LinearOrder Word] {vocab : Vocabulary Word} {ids : List (ValueId Word)} {valueId : ValueId Word}

/-- The booleans among the IDs have the same order to a boolean by their stored bits as by their values. -/
def ComparesBools (ids : List (ValueId Word)) (valueId : ValueId Word) : Prop :=
  ∀ bits bits',.encoded .Bool bits ∈ ids → valueId = .encoded .Bool bits' → cmp bits bits' = cmp (boolFromData bits) (boolFromData bits')

theorem order_eq_of_holds {first second : Ordering} (same : ∀ comparison : Comparison,comparison.holds (some first) = comparison.holds (some second)) :
    first = second := by
  have less := same .LT
  have greater := same .GT
  cases first <;> cases second <;> simp [Comparison.holds] at less greater ⊢

theorem comparesBools_of_exact (sorted : SortedIds vocab ids)
    (exact : ∀ comparison,Exact ids (getRangesForId vocab ids valueId comparison true) (fun id => compareIds vocab id valueId comparison = .True)) :
    ComparesBools ids valueId := by
  rintro bits bits' isMember rfl
  apply order_eq_of_holds
  intro comparison
  obtain ⟨ranges,isRanges,_,_,byBits⟩ := getRangesForOther_spec sorted (show getNumeric (.encoded .Bool bits' : ValueId Word) = none from rfl) comparison
  obtain ⟨result,isResult,_,byValue⟩ := exact comparison
  obtain rfl := Option.some_inj.mp (isRanges.symm.trans isResult)
  obtain ⟨i,isId⟩ := List.mem_iff_getElem?.mp isMember
  have both := (byBits i _ isId).symm.trans (byValue i)
  simp only [isId,Option.some_inj,exists_eq_left',decide_eq_true_eq,compareIds_true_iff,orderByBits_bool] at both
  exact Bool.eq_iff_iff.mpr ((and_congr_right_iff.mp both) rfl)

/-- The ranges for a value that is no number, and those for intervals of equal IDs, are exact if and only if no boolean has another order by its
stored bits than by its value. -/
theorem getRangesForOther_exact_iff (sorted : SortedIds vocab ids) (notNumber : getNumeric valueId = none) :
    ((∀ comparison,Exact ids (getRangesForId vocab ids valueId comparison true) (fun id => compareIds vocab id valueId comparison = .True)) ∧
        ∀ valueIdBegin valueIdEnd,IsInterval vocab valueIdBegin valueIdEnd → ∀ comparison,
          Exact ids (getRangesForEqualIds vocab ids valueIdBegin valueIdEnd comparison)
            (fun id => compareWithEqualIds vocab id valueIdBegin valueIdEnd comparison = some .True)) ↔
      ComparesBools ids valueId := by
  constructor
  · rintro ⟨exact,_⟩
    exact comparesBools_of_exact sorted exact
  · intro compares
    refine ⟨?_,fun valueIdBegin valueIdEnd interval comparison => getRangesForEqualIds_exact sorted interval comparison⟩
    intro comparison
    apply exact_of_spec (getRangesForOther_spec sorted notNumber comparison)
    intro id isMember
    by_cases bools : ∃ bits bits',id = .encoded .Bool bits ∧ valueId = .encoded .Bool bits'
    · obtain ⟨bits,bits',rfl,rfl⟩ := bools
      rw [orderByBits_bool,compares bits bits' isMember rfl]
      rfl
    · exact orderOfValues_eq id valueId (fun bits bits' isId isValue => bools ⟨bits,bits',isId,isValue⟩)

end OtherReference

/-- The booleans `true` and `1`. -/
def trueAndOne : List (ValueId Nat) := [.encoded .Bool 1,.encoded .Bool 3]

theorem trueAndOne_sorted : SortedIds withoutWords trueAndOne := by
  rw [SortedIds,trueAndOne,List.pairwise_pair,ValueId.value,ValueId.value,Prod.Lex.toLex_le_toLex]
  exact Or.inr ⟨rfl,Prod.Lex.toLex_le_toLex.mpr (Or.inl (by decide))⟩

theorem getRangesForOther_exact_false :
    (∀ comparison,Exact trueAndOne (getRangesForId withoutWords trueAndOne (.encoded .Bool 0) comparison true)
        (fun id => compareIds withoutWords id (.encoded .Bool 0) comparison = .True)) ∧
      ∀ valueIdBegin valueIdEnd,IsInterval withoutWords valueIdBegin valueIdEnd → ∀ comparison,
        Exact trueAndOne (getRangesForEqualIds withoutWords trueAndOne valueIdBegin valueIdEnd comparison)
          (fun id => compareWithEqualIds withoutWords id valueIdBegin valueIdEnd comparison = some .True) := by
  apply (getRangesForOther_exact_iff trueAndOne_sorted rfl).mpr
  rintro bits bits' isMember isFalse
  cases isFalse
  simp only [trueAndOne,List.mem_cons,ValueId.encoded.injEq,true_and,List.not_mem_nil,or_false] at isMember
  rcases isMember with rfl | rfl <;> decide

/-- The ID of `1` is not found as equal to `true`. -/
theorem getRangesForOther_notExact :
    ¬ ∀ comparison,Exact trueAndOne (getRangesForId withoutWords trueAndOne (.encoded .Bool 1) comparison true)
      (fun id => compareIds withoutWords id (.encoded .Bool 1) comparison = .True) := by
  intro exact
  have compares := comparesBools_of_exact trueAndOne_sorted exact 3 1 (by decide) rfl
  exact absurd compares (by decide)

end Qlever.ValueIdComparators
