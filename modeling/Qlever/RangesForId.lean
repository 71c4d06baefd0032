import Qlever.ValueIdNumericRanges

/-! The ranges of `getRangesForId` and `getRangesForEqualIds` against the comparisons `compareIds` and `compareWithEqualIds` of single IDs. A NaN
has no order to a number, but the binary searches put some of the NaNs into a range. Booleans that are written as 0 or 1 have other bits than
the ones that are written as false or true.
-/
namespace Qlever.ValueIdComparators
open Qlever.Library
open Option (bind_eq_bind bind_some pure_def)

/-- The ranges hold exactly the positions of the IDs that are accepted; they are not empty, in ascending order and do not overlap. -/
def Exact {Word : Type} (ids : List (ValueId Word)) (ranges : Option (List Interval)) (accepts : ValueId Word → Bool) : Prop :=
  ∃ result,ranges = some result ∧ Ordered result ∧ ∀ i,Covers result i ↔ ∃ id,ids[i]? = some id ∧ accepts id = true

section Numbers
variable {Word : Type} {ids : List (ValueId Word)} {value : NumericValue} {first beginOfNans beginOfNegatives last : Nat}

def NanCovered (value : NumericValue) (ids : List (ValueId Word)) (comparison : Comparison) (ranges : List Interval) : Prop :=
  getRangesForDouble ids value comparison = some ranges ∧ comparison.holds none = false ∧ (∀ range ∈ ranges,range.1 ≤ range.2) ∧
    ∃ i id,ids[i]? = some id ∧ getDatatype id = .encoded .Double ∧ (getDouble id).isNan = true ∧ Covers ranges i

structure Parted (ids : List (ValueId Word)) (first beginOfNans beginOfNegatives last : Nat) : Prop where
  isRange : getRangeForDatatype ids (.encoded .Double) = some (first,last)
  isNans : search (fun id => !doubleIdIsNegative id && !(getDouble id).isNan) ids first last = some beginOfNans
  isNegatives : search (fun id => !doubleIdIsNegative id) ids first last = some beginOfNegatives
  parts : DoubleParts ids first beginOfNans beginOfNegatives last
  exactly : ∀ (i : Nat) id,ids[i]? = some id → (first ≤ i ∧ i < last ↔ (getDatatype id).group = (Datatype.encoded .Double).group)

theorem exists_parted (sorted : NumbersInOrder ids) (fits : ∀ id ∈ ids,FitsData id) :
    ∃ first beginOfNans beginOfNegatives last,Parted ids first beginOfNans beginOfNegatives last := by
  obtain ⟨first,last,isRange,ordered,exactly⟩ := getRangeForNumeric_spec sorted fits (Or.inr rfl)
  obtain ⟨beginOfNans,beginOfNegatives,isNans,isNegatives,parts⟩ := ordered.doubleParts
  exact ⟨first,beginOfNans,beginOfNegatives,last,isRange,isNans,isNegatives,parts,exactly⟩

variable (parted : Parted ids first beginOfNans beginOfNegatives last) (notNan : value.isNan = false)
include parted notNan

theorem Parted.rangesForZero (zero : value.keyForInts = 0) {positiveEnd : Nat}
    (isPositiveEnd : search (fun id => !isLess (.double 0) (getDouble id)) ids first beginOfNegatives = some positiveEnd) :
    ∃ negativeEnd,beginOfNegatives ≤ negativeEnd ∧ negativeEnd ≤ last ∧
      ∀ comparison,getRangesForDouble ids value comparison = some (pieceRanges comparison [(none,(beginOfNans,beginOfNegatives)),
        (some .eq,(first,positiveEnd)),(some .gt,(positiveEnd,beginOfNans)),(some .eq,(beginOfNegatives,negativeEnd)),(some .lt,(negativeEnd,last))]) := by
  have notPositive : isLess (.int 0) value = false := by
    rw [← Bool.not_eq_true,NumericValue.zero_isLess notNan]
    omega
  have notNegative : isLess value (.int 0) = false := by
    rw [← Bool.not_eq_true,NumericValue.isLess_zero notNan]
    omega
  obtain ⟨negativeEnd,isNegativeEnd,lower,upper⟩ :=
    search_ends (fun id => !isLess (getDouble id) (.double 0)) parted.parts.upper parted.parts.ordered.inside
  refine ⟨negativeEnd,lower,upper,?_⟩
  intro comparison
  rw [getRangesForDouble,parted.isRange]
  simp only [bind_eq_bind,bind_some,notNan,parted.isNans,parted.isNegatives,notPositive,notNegative,isPositiveEnd,isNegativeEnd,
    Bool.false_eq_true,if_false,if_true,RangeFilter.addSmaller_eq,RangeFilter.addEqual_eq,RangeFilter.addGreater_eq,
    RangeFilter.addNotEqual_eq,List.nil_append,List.append_assoc,← pieceRanges_append,guard,ge_iff_le,parted.parts.middle]
  rfl

theorem Parted.negativeNan_covered {i : Nat} {id : ValueId Word} (isId : ids[i]? = some id) (isNan : (getDouble id).isNan = true)
    (above : beginOfNegatives ≤ i) (below : i < last) : ∃ comparison ranges,NanCovered value ids comparison ranges := by
  have lower := parted.parts.lower
  have middle := parted.parts.middle
  have upper := parted.parts.upper
  have inside := parted.parts.ordered.inside
  have isDouble := (isDouble_iff id).mpr ((parted.exactly i id isId).mp ⟨by omega,below⟩)
  rcases lt_trichotomy 0 value.keyForInts with positive | zero | negative
  · have isPositive := (NumericValue.zero_isLess notNan).mpr positive
    obtain ⟨eqBegin,isBegin,lower',upper'⟩ := search_ends (fun id => isLess (getDouble id) value) lower (by omega : beginOfNans ≤ ids.length)
    obtain ⟨eqEnd,isEnd,_,_⟩ := search_ends (fun id => !isLess value (getDouble id)) lower (by omega : beginOfNans ≤ ids.length)
    refine ⟨.LT,[(first,eqBegin),(beginOfNegatives,last)],?_,rfl,?_,i,id,isId,isDouble,isNan,(beginOfNegatives,last),by simp,above,below⟩
    · rw [getRangesForDouble,parted.isRange]
      simp only [bind_eq_bind,bind_some,notNan,parted.isNans,parted.isNegatives,isPositive,equalRange,isBegin,isEnd,
        Bool.false_eq_true,if_false,if_true,guard,ge_iff_le,middle]
      rfl
    · simp [lower',upper]
  · obtain ⟨positiveEnd,isPositiveEnd,lower',upper'⟩ :=
      search_ends (fun id => !isLess (.double 0) (getDouble id)) (lower.trans middle) (by omega : beginOfNegatives ≤ ids.length)
    obtain ⟨negativeEnd,lower'',upper'',results⟩ := parted.rangesForZero notNan zero.symm isPositiveEnd
    rcases Nat.lt_or_ge i negativeEnd with isZero | isSmaller
    · refine ⟨.EQ,_,results .EQ,rfl,?_,i,id,isId,isDouble,isNan,(beginOfNegatives,negativeEnd),by simp [pieceRanges,Comparison.holds],above,isZero⟩
      simp [pieceRanges,Comparison.holds,lower',lower'']
    · refine ⟨.LT,_,results .LT,rfl,?_,i,id,isId,isDouble,isNan,(negativeEnd,last),by simp [pieceRanges,Comparison.holds],isSmaller,below⟩
      simp [pieceRanges,Comparison.holds,upper'']
  · have notPositive : isLess (.int 0) value = false := by
      rw [← Bool.not_eq_true,NumericValue.zero_isLess notNan]
      omega
    have isNegative := (NumericValue.isLess_zero notNan).mpr negative
    obtain ⟨eqBegin,isBegin,lower',upper'⟩ := search_ends (fun id => isLess value (getDouble id)) upper inside
    obtain ⟨eqEnd,isEnd,lower'',upper''⟩ := search_ends (fun id => !isLess (getDouble id) value) upper inside
    have results : ∀ comparison,getRangesForDouble ids value comparison = some (pieceRanges comparison [(none,(beginOfNans,beginOfNegatives)),
        (some .gt,(first,beginOfNans)),(some .gt,(beginOfNegatives,eqBegin)),(some .eq,(eqBegin,eqEnd)),(some .lt,(eqEnd,last))]) := by
      intro comparison
      rw [getRangesForDouble,parted.isRange]
      simp only [bind_eq_bind,bind_some,notNan,parted.isNans,parted.isNegatives,notPositive,isNegative,equalRange,isBegin,isEnd,
        Bool.false_eq_true,if_false,if_true,RangeFilter.addSmaller_eq,RangeFilter.addEqual_eq,RangeFilter.addGreater_eq,
        RangeFilter.addNotEqual_eq,List.nil_append,List.append_assoc,← pieceRanges_append,guard,ge_iff_le,middle,pure_def]
      rfl
    rcases Nat.lt_or_ge i eqBegin with isGreater | notGreater
    · refine ⟨.GT,_,results .GT,rfl,?_,i,id,isId,isDouble,isNan,(beginOfNegatives,eqBegin),by simp [pieceRanges,Comparison.holds],above,isGreater⟩
      simp [pieceRanges,Comparison.holds,lower,lower']
    · rcases Nat.lt_or_ge i eqEnd with isEqual | isSmaller
      · refine ⟨.EQ,_,results .EQ,rfl,?_,i,id,isId,isDouble,isNan,(eqBegin,eqEnd),by simp [pieceRanges,Comparison.holds],notGreater,isEqual⟩
        simp only [pieceRanges,Comparison.holds]
        simp
        omega
      · refine ⟨.LT,_,results .LT,rfl,?_,i,id,isId,isDouble,isNan,(eqEnd,last),by simp [pieceRanges,Comparison.holds],isSmaller,below⟩
        simp [pieceRanges,Comparison.holds,upper'']

theorem Parted.positiveNan_covered (zero : value.keyForInts = 0) (unlucky : ¬ (nans ids = 0 ∨ firstProbe (zeros ids) (numbers ids + nans ids) < numbers ids)) :
    ∃ comparison ranges,NanCovered value ids comparison ranges := by
  have lower := parted.parts.lower
  have middle := parted.parts.middle
  have upper := parted.parts.upper
  have inside := parted.parts.ordered.inside
  have some : nans ids ≠ 0 := fun none => unlucky (Or.inl none)
  rw [parted.parts.nans_eq parted.exactly] at some
  obtain ⟨point,_,_,_,isPositiveEnd⟩ := parted.parts.search_zeros parted.exactly
  rw [if_neg unlucky] at isPositiveEnd
  obtain ⟨negativeEnd,lower',upper',results⟩ := parted.rangesForZero notNan zero isPositiveEnd
  have isId := List.getElem?_eq_getElem (show beginOfNans < ids.length by omega)
  have isNan : (getDouble ids[beginOfNans]).isNan = true := by
    rw [getDouble_eq]
    exact parted.parts.isNan_of_middle isId (le_refl _) (by omega)
  refine ⟨.EQ,_,results .EQ,rfl,?_,beginOfNans,_,isId,(isDouble_iff _).mpr ((parted.exactly _ _ isId).mp ⟨lower,by omega⟩),isNan,
    (first,beginOfNegatives),by simp [pieceRanges,Comparison.holds],lower,by simp only; omega⟩
  simp [pieceRanges,Comparison.holds,lower.trans middle,lower']

omit parted in
theorem nanCovered_of_not_searchable (sorted : NumbersInOrder ids) (fits : ∀ id ∈ ids,FitsData id) (notSearchable : ¬ Searchable value ids) :
    ∃ comparison ranges,NanCovered value ids comparison ranges := by
  obtain ⟨first,beginOfNans,beginOfNegatives,last,parted⟩ := exists_parted sorted fits
  rw [Searchable,notNan,or_iff_right Bool.false_ne_true] at notSearchable
  by_cases allPositive : ∀ id ∈ ids,getDatatype id = .encoded .Double → (getDouble id).isNan = true → doubleIdIsNegative id = false
  · obtain ⟨zero,unlucky⟩ := Classical.not_imp.mp (fun implied => notSearchable ⟨allPositive,implied⟩)
    exact parted.positiveNan_covered notNan zero unlucky
  · push Not at allPositive
    obtain ⟨id,isMember,isDouble,isNan,negative⟩ := allPositive
    obtain ⟨i,isId⟩ := List.mem_iff_getElem?.mp isMember
    obtain ⟨above,below⟩ := (parted.exactly i id isId).mpr ((isDouble_iff id).mp isDouble)
    apply parted.negativeNan_covered notNan isId isNan _ below
    by_contra before
    have small := (parted.parts.negative i id isId above below).mp (by omega)
    rw [doubleIdIsNegative,getDouble_eq,NumericValue.toDouble,ne_eq,Bool.not_eq_false,isNegative_iff] at negative
    omega

end Numbers

section NumericReference
variable {Word : Type} [LinearOrder Word] {vocab : Vocabulary Word} {ids : List (ValueId Word)} {valueId : ValueId Word} {value : NumericValue}

theorem compareIds_true_iff (id : ValueId Word) (comparison : Comparison) :
    compareIds vocab id valueId comparison = .True ↔
      areTypesCompatible (getDatatype id) (getDatatype valueId) = true ∧ comparison.holds (orderOfValues vocab id valueId) = true := by
  rw [compareIds]
  split
  next compatible =>
    rw [fromBool]
    split <;> simp_all
  next incompatible => simp [incompatible]

theorem searchable_of_exact (inOrder : NumbersInOrder ids) (fits : ∀ id ∈ ids,FitsData id) (isNumber : getNumeric valueId = some value)
    (exact : ∀ comparison,Exact ids (getRangesForId vocab ids valueId comparison true) (fun id => compareIds vocab id valueId comparison = .True)) :
    Searchable value ids := by
  by_contra notSearchable
  have notNan : value.isNan = false := by
    rw [← Bool.not_eq_true]
    exact fun isNan => notSearchable (Or.inl isNan)
  obtain ⟨comparison,ranges,isRanges,notHolds,valid,i,id,isId,isDouble,isNan,covered⟩ := nanCovered_of_not_searchable notNan inOrder fits notSearchable
  obtain ⟨pieces,isInt,ints⟩ := getRangesForInt_spec inOrder fits value
  obtain ⟨result,isResult,_,covers⟩ := exact comparison
  have joinedValid : ∀ range ∈ ranges ++ pieceRanges comparison pieces,range.1 ≤ range.2 := by
    intro range isMember
    rcases List.mem_append.mp isMember with isFirst | isSecond
    · exact valid range isFirst
    · obtain ⟨piece,isPiece,rfl⟩ := List.mem_map.mp isSecond
      exact (ints.inside piece (List.mem_of_mem_filter isPiece)).1
  have isJoined : getRangesForId vocab ids valueId comparison true = some (simplifyRanges (ranges ++ pieceRanges comparison pieces) true) := by
    rw [getRangesForId,if_neg (defined_of_number isNumber),isNumber]
    simp only [getRangesForIntsAndDoubles,isRanges,isInt,bind_eq_bind,bind_some,Option.map_some,pure_def]
  obtain rfl := Option.some_inj.mp (isJoined.symm.trans isResult)
  obtain ⟨other,isOther,accepted⟩ := (covers i).mp ((covers_simplifyRanges joinedValid i).mpr (covers_append.mpr (Or.inl covered)))
  obtain rfl := Option.some_inj.mp (isId.symm.trans isOther)
  rw [decide_eq_true_eq,compareIds_true_iff] at accepted
  obtain ⟨data,rfl⟩ := encoded_of_group (Or.inr rfl) ((isDouble_iff id).mp isDouble)
  have nanOrder : orderOfValues vocab (.encoded .Double data) valueId = none := by
    rw [orderOfValues_eq _ _ (fun _ _ isBool => by cases isBool),orderByBits,isNumber]
    exact compare_double_nan isNan
  rw [nanOrder,notHolds] at accepted
  exact absurd accepted.2 Bool.false_ne_true

/-- The ranges that `getRangesForId` finds by the order of the bits, where this is the order of the values. -/
theorem exact_of_spec {ranges : Option (List Interval)} {comparison : Comparison}
    (spec : ∃ result,ranges = some result ∧ Separated result ∧ (∀ i,Covers result i → i < ids.length) ∧
      ∀ i id,ids[i]? = some id →
        (Covers result i ↔ areTypesCompatible (getDatatype id) (getDatatype valueId) = true ∧ comparison.holds (orderByBits vocab id valueId) = true))
    (same : ∀ id ∈ ids,orderOfValues vocab id valueId = orderByBits vocab id valueId) :
    Exact ids ranges (fun id => compareIds vocab id valueId comparison = .True) := by
  obtain ⟨result,isResult,separated,bounded,covers⟩ := spec
  refine ⟨result,isResult,separated.ordered,?_⟩
  intro i
  constructor
  · intro covered
    have isId := List.getElem?_eq_getElem (bounded i covered)
    refine ⟨_,isId,?_⟩
    rw [decide_eq_true_eq,compareIds_true_iff,same _ (List.mem_of_getElem? isId)]
    exact (covers i _ isId).mp covered
  · rintro ⟨id,isId,accepted⟩
    rw [decide_eq_true_eq,compareIds_true_iff,same id (List.mem_of_getElem? isId)] at accepted
    exact (covers i id isId).mpr accepted

/-- The ranges for a number are exact for every comparison if and only if the NaNs among the IDs do not disturb the searches. -/
theorem getRangesForId_exact_iff (sorted : SortedIds vocab ids ∨ SortedByBits ids) (fits : ∀ id ∈ ids,FitsData id) (fitsValue : FitsData valueId)
    (isNumber : getNumeric valueId = some value) :
    (∀ comparison,Exact ids (getRangesForId vocab ids valueId comparison true) (fun id => compareIds vocab id valueId comparison = .True)) ↔
      Searchable value ids := by
  have inOrder := sorted.elim SortedIds.numbersInOrder SortedByBits.numbersInOrder
  refine ⟨searchable_of_exact inOrder fits isNumber,?_⟩
  intro searchable comparison
  apply exact_of_spec (getRangesForNumber_spec inOrder fits fitsValue isNumber searchable comparison)
  intro id _
  apply orderOfValues_eq
  rintro bits bits' _ rfl
  cases isNumber

end NumericReference

def oneAndNan : List (ValueId Nat) := [.encoded .Double (1023 * 2 ^ 48),.encoded .Double (2047 * 2 ^ 48 + 2 ^ 47)]

def withoutWords : Vocabulary Nat := ⟨[],Vocabulary.sorted_nil⟩

theorem oneAndNan_sorted : SortedIds withoutWords oneAndNan := by
  rw [SortedIds,oneAndNan,List.pairwise_pair,ValueId.value,ValueId.value,Prod.Lex.toLex_le_toLex]
  exact Or.inr ⟨rfl,Prod.Lex.toLex_le_toLex.mpr (Or.inl (by decide))⟩

theorem oneAndNan_fits : ∀ id ∈ oneAndNan,FitsData id := by
  unfold FitsData
  decide

theorem getRangesForId_exact_oneAndNan :
    SortedIds withoutWords oneAndNan ∧ ∀ comparison,Exact oneAndNan (getRangesForId withoutWords oneAndNan (.encoded .Int 5) comparison true)
      (fun id => compareIds withoutWords id (.encoded .Int 5) comparison = .True) := by
  refine ⟨oneAndNan_sorted,?_⟩
  apply (getRangesForId_exact_iff (Or.inl oneAndNan_sorted) oneAndNan_fits (by unfold FitsData; decide) rfl).mpr
  exact Or.inr ⟨by decide,fun zero => absurd zero (by decide)⟩

/-- The comparison with zero finds the number 1 and the NaN. -/
theorem getRangesForId_notExact :
    ¬ ∀ comparison,Exact oneAndNan (getRangesForId withoutWords oneAndNan (.encoded .Int 0) comparison true)
      (fun id => compareIds withoutWords id (.encoded .Int 0) comparison = .True) := by
  intro exact
  have searchable := searchable_of_exact oneAndNan_sorted.numbersInOrder oneAndNan_fits rfl exact
  rcases searchable with isNan | ⟨_,found⟩
  · cases isNan
  · have probe : firstProbe 0 2 = 1 := by
      rw [firstProbe]
      rfl
    rcases found rfl with none | less
    · exact absurd none (by decide)
    · rw [show zeros oneAndNan = 0 by decide,show numbers oneAndNan = 1 by decide,show nans oneAndNan = 1 by decide,probe] at less
      omega

end Qlever.ValueIdComparators
