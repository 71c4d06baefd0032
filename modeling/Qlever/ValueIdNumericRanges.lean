import Qlever.ValueIdRanges

/-! The ranges of the numbers for which a comparison holds. In a sorted list the negative numbers stand behind the other ones, the
negative integers in ascending and the negative doubles in descending order. The NaNs without sign bit stand between the positive and the
negative doubles, the ones with sign bit behind the negative infinity.
-/
namespace Qlever.ValueIdComparators
open Qlever.Library List Binary64 RangeFilter
open Option (some_inj bind_eq_bind bind_some)
open Bool (not_eq_true' not_eq_true false_eq_true and_eq_true)

namespace NumericValue

def Fits : NumericValue → Prop
  | int value => value.natAbs < 2 ^ 64
  | double _ => True

def keyForInts : NumericValue → Int
  | int value => value
  | double bits => Binary64.key bits

def intKey : NumericValue → Int → Int
  | int _,i => i
  | double _,i => Binary64.key (ofInt i)

variable {value : NumericValue} {i j : Int}

theorem compare_int (notNan : value.isNan = false) (small : i.natAbs < 2 ^ 64) : (int i).compare value = some (cmp (value.intKey i) value.keyForInts) := by
  cases value with
  | int v => rfl
  | double bits =>
    have isNumber : Binary64.isNan bits = false := notNan
    simp [compare,Binary64.compare,toDouble,isNan_ofInt small,isNumber,intKey,keyForInts]

theorem int_compare (notNan : value.isNan = false) (small : i.natAbs < 2 ^ 64) : value.compare (int i) = some (cmp value.keyForInts (value.intKey i)) := by
  cases value with
  | int v => rfl
  | double bits =>
    have isNumber : Binary64.isNan bits = false := notNan
    simp [compare,Binary64.compare,toDouble,isNan_ofInt small,isNumber,intKey,keyForInts]

theorem intKey_mono (le : i ≤ j) (smallFirst : i.natAbs < 2 ^ 64) (smallSecond : j.natAbs < 2 ^ 64) : value.intKey i ≤ value.intKey j := by
  cases value with
  | int v => exact le
  | double bits => exact key_ofInt_mono le smallFirst smallSecond

theorem intKey_zero : value.intKey 0 = 0 := by
  cases value with
  | int v => rfl
  | double bits => exact (by decide : Binary64.key (ofInt 0) = 0)

theorem intKey_neg (negative : i < 0) (small : i.natAbs < 2 ^ 64) : value.intKey i < 0 := by
  cases value with
  | int v => exact negative
  | double bits => exact key_ofInt_neg negative small

section
variable (notNan : value.isNan = false)
include notNan

theorem isLess_int (small : i.natAbs < 2 ^ 64) : isLess (int i) value = true ↔ value.intKey i < value.keyForInts := by
  rw [isLess,compare_int notNan small,beq_iff_eq,some_inj,cmp_eq_lt_iff]

theorem int_isLess (small : i.natAbs < 2 ^ 64) : isLess value (int i) = true ↔ value.keyForInts < value.intKey i := by
  rw [isLess,int_compare notNan small,beq_iff_eq,some_inj,cmp_eq_lt_iff]

theorem isLess_zero : isLess value (int 0) = true ↔ value.keyForInts < 0 := by
  rw [int_isLess notNan (by decide),intKey_zero]

theorem zero_isLess : isLess (int 0) value = true ↔ 0 < value.keyForInts := by
  rw [isLess_int notNan (by decide),intKey_zero]

end

theorem key_pos_iff (fits : value.Fits) : 0 < Binary64.key value.toDouble ↔ 0 < value.keyForInts := by
  cases value with
  | int v =>
    constructor
    · intro positive
      by_contra notPositive
      have atMost := key_ofInt_mono (show v ≤ 0 by simpa [keyForInts] using notPositive) fits (by decide)
      have zero : Binary64.key (ofInt 0) = 0 := by decide
      rw [zero] at atMost
      exact absurd positive (not_lt.mpr atMost)
    · intro positive
      exact key_ofInt_pos positive fits
  | double bits => rfl

theorem key_neg_iff (fits : value.Fits) : Binary64.key value.toDouble < 0 ↔ value.keyForInts < 0 := by
  cases value with
  | int v =>
    constructor
    · intro negative
      by_contra notNegative
      have atLeast := key_ofInt_mono (show 0 ≤ v by simpa [keyForInts] using notNegative) (by decide) fits
      have zero : Binary64.key (ofInt 0) = 0 := by decide
      rw [zero] at atLeast
      exact absurd negative (not_lt.mpr atLeast)
    · intro negative
      exact key_ofInt_neg negative fits
  | double bits => rfl

theorem isNan_toDouble (fits : value.Fits) : Binary64.isNan value.toDouble = value.isNan := by
  cases value with
  | int v => exact isNan_ofInt fits
  | double bits => rfl

end NumericValue

section Data
variable {Word : Type}

def dataOf : ValueId Word → Nat
  | .encoded _ data => data
  | _ => 0

def FitsData (id : ValueId Word) : Prop := dataOf id < 2 ^ 60

theorem getInt_eq (id : ValueId Word) : getInt id = .int (fromNBit (dataOf id)) := by
  cases id <;> rfl

theorem getDouble_eq (id : ValueId Word) : getDouble id = .double (doubleFromData (dataOf id)) := by
  cases id <;> rfl

variable {data : Nat}

theorem fromNBit_of_lt (small : data < 2 ^ 59) : fromNBit data = data := if_pos small

theorem fromNBit_of_ge (large : 2 ^ 59 ≤ data) : fromNBit data = (data : Int) - 2 ^ 60 := if_neg (by omega)

theorem fromNBit_small (fits : data < 2 ^ 60) : (fromNBit data).natAbs < 2 ^ 64 := by
  unfold fromNBit
  split <;> omega

theorem encoded_of_group {datatype : EncodedType} (numeric : datatype = .Int ∨ datatype = .Double) {id : ValueId Word}
    (same : (getDatatype id).group = (Datatype.encoded datatype).group) : ∃ data,id = .encoded datatype data := by
  cases id with
  | encoded other data =>
    refine ⟨data,?_⟩
    rcases numeric with rfl | rfl <;> cases other <;> simp [getDatatype,Datatype.group,Datatype.isString,Datatype.toNat,EncodedType.toNat] at same ⊢
  | _ => rcases numeric with rfl | rfl <;> simp [getDatatype,Datatype.group,Datatype.isString,Datatype.toNat,EncodedType.toNat] at same

variable {ids : List (ValueId Word)}

def DataLe (x y : ValueId Word) : Prop :=
  ∀ datatype,datatype = .Int ∨ datatype = .Double → (getDatatype x).group = (Datatype.encoded datatype).group →
    (getDatatype y).group = (Datatype.encoded datatype).group → dataOf x ≤ dataOf y

structure NumbersInOrder (ids : List (ValueId Word)) : Prop where
  grouped : GroupedIds ids
  data_le : ids.Pairwise DataLe

def SortedByBits (ids : List (ValueId Word)) : Prop := ids.Pairwise (fun first second => first.bits ≤ second.bits)

theorem group_eq (id : ValueId Word) : (getDatatype id).group = if id.bits.1 = 5 then 4 else id.bits.1 := by
  cases id with
  | encoded datatype data => cases datatype <;> rfl
  | _ => rfl

theorem SortedByBits.numbersInOrder (sorted : SortedByBits ids) : NumbersInOrder ids where
  grouped := by
    apply sorted.imp
    intro x y le
    have rank : x.bits.1 ≤ y.bits.1 := by
      rcases Prod.Lex.le_iff.mp le with less | ⟨same,_⟩
      · exact less.le
      · exact same.le
    rw [group_eq,group_eq]
    split <;> split <;> omega
  data_le := by
    apply sorted.imp
    intro x y le datatype numeric first second
    obtain ⟨data,rfl⟩ := encoded_of_group numeric first
    obtain ⟨data',rfl⟩ := encoded_of_group numeric second
    rcases Prod.Lex.toLex_le_toLex.mp le with less | ⟨_,le⟩
    · omega
    · exact le

theorem SortedIds.numbersInOrder [LinearOrder Word] {vocab : Vocabulary Word} (sorted : SortedIds vocab ids) : NumbersInOrder ids where
  grouped := sorted.grouped
  data_le := by
    apply sorted.imp
    intro x y le datatype numeric first second
    obtain ⟨data,rfl⟩ := encoded_of_group numeric first
    obtain ⟨data',rfl⟩ := encoded_of_group numeric second
    simp only [ValueId.value,Prod.Lex.toLex_le_toLex] at le
    simp only [dataOf]
    rcases le with less | ⟨_,less | ⟨same,_⟩⟩
    · omega
    · exact less.le
    · exact same.le

variable {test : ValueId Word → Bool}

theorem countP_eq {first last : Nat} (le : first ≤ last) (inside : last ≤ ids.length)
    (exactly : ∀ (i : Nat) id,ids[i]? = some id → (test id = true ↔ first ≤ i ∧ i < last)) : ids.countP test = last - first := by
  induction ids generalizing first last with
  | nil =>
    rw [length_nil] at inside
    rw [countP_nil]
    omega
  | cons id rest ih =>
    have head := exactly 0 id rfl
    have tail : rest.countP test = (last - 1) - (first - 1) := by
      apply ih (by omega) (by rw [length_cons] at inside; omega)
      intro i other isOther
      rw [exactly (i + 1) other isOther]
      omega
    rw [countP_cons,tail]
    split
    next isTest =>
      have range := head.mp isTest
      omega
    next notTest =>
      have outside := head.not.mp notTest
      omega

structure OrderedData (ids : List (ValueId Word)) (first last : Nat) : Prop where
  le : first ≤ last
  inside : last ≤ ids.length
  fits : ∀ (i : Nat) id,ids[i]? = some id → dataOf id < 2 ^ 60
  data_le : ∀ i j x y,first ≤ i → i ≤ j → j < last → ids[i]? = some x → ids[j]? = some y → dataOf x ≤ dataOf y

theorem getRangeForNumeric_spec (sorted : NumbersInOrder ids) (fits : ∀ id ∈ ids,FitsData id) {datatype : EncodedType}
    (numeric : datatype = .Int ∨ datatype = .Double) :
    ∃ first last,getRangeForDatatype ids (.encoded datatype) = some (first,last) ∧ OrderedData ids first last ∧
      ∀ i id,ids[i]? = some id → (first ≤ i ∧ i < last ↔ (getDatatype id).group = (Datatype.encoded datatype).group) := by
  obtain ⟨⟨first,last⟩,isRange,le,inside,exactly⟩ := getRangeForDatatype_spec sorted.grouped (.encoded datatype)
  refine ⟨first,last,isRange,⟨le,inside,?_,?_⟩,exactly⟩
  · intro i id isId
    exact fits id (mem_of_getElem? isId)
  · intro i j x y above before below isFirst isSecond
    exact getElem?_of_pairwise sorted.data_le (fun _ _ _ _ _ => le_refl _) before isFirst isSecond datatype numeric ((exactly i x isFirst).mp ⟨above,by omega⟩)
      ((exactly j y isSecond).mp ⟨by omega,below⟩)

theorem OrderedData.search_bound {first last bound : Nat} (ordered : OrderedData ids first last)
    (isTest : ∀ i id,ids[i]? = some id → first ≤ i → i < last → (test id = true ↔ dataOf id < bound)) :
    ∃ point,search test ids first last = some point ∧ first ≤ point ∧ point ≤ last ∧
      ∀ i id,ids[i]? = some id → first ≤ i → i < last → (i < point ↔ dataOf id < bound) := by
  obtain ⟨point,isPoint,splits⟩ : ∃ point,search test ids first last = some point ∧ Splits test ids first last point := by
    apply search_spec ordered.le ordered.inside
    intro i j x y above before below isFirst isSecond
    rw [isTest i x isFirst above (by omega),isTest j y isSecond (by omega) below]
    exact (ordered.data_le i j x y above before below isFirst isSecond).trans_lt
  refine ⟨point,isPoint,splits.lower,splits.upper,?_⟩
  intro i id isId above below
  rw [← isTest i id isId above below]
  constructor
  · exact splits.before i id isId above
  · intro holds
    by_contra after
    rw [splits.after i id isId (by omega) below] at holds
    cases holds

theorem OrderedData.part {first last first' last' : Nat} (ordered : OrderedData ids first last) (lower : first ≤ first') (le : first' ≤ last')
    (upper : last' ≤ last) : OrderedData ids first' last' where
  le := le
  inside := upper.trans ordered.inside
  fits := ordered.fits
  data_le := fun i j x y above before below => ordered.data_le i j x y (by omega) before (by omega)

end Data

section Ints
variable {Word : Type} {ids : List (ValueId Word)} {value : NumericValue}

theorem compare_isNan {first : NumericValue} (isNan : value.isNan = true) : first.compare value = none := by
  cases value with
  | int v => cases isNan
  | double bits =>
    have bitsNan : Binary64.isNan bits = true := isNan
    cases first <;> simp [NumericValue.compare,Binary64.compare,NumericValue.toDouble,bitsNan]

theorem pieceRanges_none (comparison : Comparison) (range : Interval) :
    pieceRanges comparison [(none,range)] = if comparison = .NE then [range] else [] := by
  cases comparison <;> rfl

theorem getRangesForInt_spec (sorted : NumbersInOrder ids) (fits : ∀ id ∈ ids,FitsData id) (value : NumericValue) :
    ∃ pieces,(∀ comparison,getRangesForInt ids value comparison = some (pieceRanges comparison pieces)) ∧
      Classified ids (fun id => (getDatatype id).group = (Datatype.encoded .Int).group) (fun id => (getInt id).compare value) pieces := by
  obtain ⟨first,last,isRange,ordered,exactly⟩ := getRangeForNumeric_spec sorted fits (Or.inl rfl)
  cases isNan : value.isNan with
  | true =>
    refine ⟨[(none,(first,last))],?_,(cut_single ordered.le (fun i id isId above below => compare_isNan isNan)).classified ordered.inside exactly⟩
    intro comparison
    rw [getRangesForInt,isRange,pieceRanges_none]
    simp [isNan]
  | false =>
    obtain ⟨firstNegative,isFirstNegative,lower,upper,negative⟩ : ∃ point,search (fun id => !isLess (getInt id) (.int 0)) ids first last = some point ∧
        first ≤ point ∧ point ≤ last ∧ ∀ i id,ids[i]? = some id → first ≤ i → i < last → (i < point ↔ dataOf id < 2 ^ 59) := by
      apply ordered.search_bound
      intro i id isId above below
      have isSmall := ordered.fits i id isId
      rw [getInt_eq,not_eq_true',← not_eq_true,NumericValue.isLess_int rfl (fromNBit_small isSmall)]
      simp only [NumericValue.intKey,NumericValue.keyForInts,fromNBit]
      split <;> omega
    have order : ∀ (i : Nat) id,ids[i]? = some id → (getInt id).compare value = some (cmp (value.intKey (fromNBit (dataOf id))) value.keyForInts) := by
      intro i id isId
      rw [getInt_eq,NumericValue.compare_int isNan (fromNBit_small (ordered.fits i id isId))]
    -- The binary search among the integers of one sign.
    have equal : ∀ {first' last'},OrderedData ids first' last' →
        (∀ i j x y,first' ≤ i → i ≤ j → j < last' → ids[i]? = some x → ids[j]? = some y → fromNBit (dataOf x) ≤ fromNBit (dataOf y)) →
        ∃ range,equalRange (fun id => isLess (getInt id) value) (fun id => isLess value (getInt id)) ids first' last' = some range ∧
          Cut (fun id => (getInt id).compare value) ids first' last' [(some .lt,(first',range.1)),(some .eq,range),(some .gt,(range.2,last'))] := by
      intro first' last' part ascending
      obtain ⟨range,isEqual,cuts⟩ : ∃ range,
          equalRange (fun id => isLess (getInt id) value) (fun id => isLess value (getInt id)) ids first' last' = some range ∧
            IsEqualRange (fun id => value.intKey (fromNBit (dataOf id))) value.keyForInts ids first' last' range := by
        apply equalRange_spec _ _ part.le part.inside
        · intro i id isId above below
          have isSmall := fromNBit_small (part.fits i id isId)
          rw [getInt_eq,NumericValue.isLess_int isNan isSmall,NumericValue.int_isLess isNan isSmall]
          exact ⟨Iff.rfl,Iff.rfl⟩
        · intro i j x y above before below isFirst isSecond
          exact NumericValue.intKey_mono (ascending i j x y above before below isFirst isSecond) (fromNBit_small (part.fits i x isFirst))
            (fromNBit_small (part.fits j y isSecond))
      exact ⟨range,isEqual,cuts.cut (fun i id isId above below => order i id isId)⟩
    by_cases notNegative : 0 ≤ value.keyForInts
    · have isNotLess : isLess value (.int 0) = false := by
        rw [← not_eq_true,NumericValue.isLess_zero isNan]
        omega
      obtain ⟨range,isEqual,cut⟩ := equal (ordered.part (le_refl _) lower upper) (by
        intro i j x y above before below isFirst isSecond
        have dataLe := ordered.data_le i j x y above before (by omega) isFirst isSecond
        have small := (negative j y isSecond (by omega) (by omega)).mp below
        rw [fromNBit_of_lt (by omega),fromNBit_of_lt small]
        omega)
      have smaller : Cut (fun id => (getInt id).compare value) ids firstNegative last [(some .lt,(firstNegative,last))] := by
        apply cut_single upper
        intro i id isId above below
        have large := (negative i id isId (by omega) below).not.mp (by omega)
        have isSmall := ordered.fits i id isId
        have isNegative : value.intKey (fromNBit (dataOf id)) < 0 := by
          apply NumericValue.intKey_neg _ (fromNBit_small isSmall)
          rw [fromNBit_of_ge (by omega)]
          omega
        rw [order i id isId,(cmp_eq_lt_iff _ _).mpr (isNegative.trans_le notNegative)]
      refine ⟨_,?_,(cut.append smaller lower upper).classified ordered.inside exactly⟩
      intro comparison
      rw [getRangesForInt,isRange]
      simp only [bind_eq_bind,bind_some,isNan,isFirstNegative,isNotLess,isEqual,false_eq_true,if_false,Bool.not_false,if_true,
        addSmaller_eq,addEqual_eq,addGreater_eq,nil_append,append_assoc,← pieceRanges_append]
      rfl
    · have isLessZero : isLess value (.int 0) = true := by
        rw [NumericValue.isLess_zero isNan]
        omega
      obtain ⟨range,isEqual,cut⟩ := equal (ordered.part lower upper (le_refl _)) (by
        intro i j x y above before below isFirst isSecond
        have dataLe := ordered.data_le i j x y (by omega) before below isFirst isSecond
        have large := (negative i x isFirst (by omega) (by omega)).not.mp (by omega)
        rw [fromNBit_of_ge (by omega),fromNBit_of_ge (by omega)]
        omega)
      have greater : Cut (fun id => (getInt id).compare value) ids first firstNegative [(some .gt,(first,firstNegative))] := by
        apply cut_single lower
        intro i id isId above below
        have small := (negative i id isId above (by omega)).mp below
        have isSmall := ordered.fits i id isId
        have isPositive : 0 ≤ value.intKey (fromNBit (dataOf id)) := by
          rw [← @NumericValue.intKey_zero value]
          apply NumericValue.intKey_mono _ (by decide) (fromNBit_small isSmall)
          rw [fromNBit_of_lt small]
          omega
        rw [order i id isId,(cmp_eq_gt_iff _ _).mpr (by omega)]
      refine ⟨_,?_,(greater.append cut lower upper).classified ordered.inside exactly⟩
      intro comparison
      rw [getRangesForInt,isRange]
      simp only [bind_eq_bind,bind_some,isNan,isFirstNegative,isLessZero,isEqual,false_eq_true,if_false,Bool.not_true,
        addSmaller_eq,addEqual_eq,addGreater_eq,nil_append,append_assoc,← pieceRanges_append]
      rfl

end Ints

section Doubles

variable {data : Nat}

theorem isNegative_iff : Binary64.isNegative (doubleFromData data) = true ↔ 2 ^ 59 ≤ data := by
  rw [Binary64.isNegative,doubleFromData,decide_eq_true_iff]
  omega

theorem isNan_iff (fits : data < 2 ^ 60) :
    Binary64.isNan (doubleFromData data) = true ↔ if data < 2 ^ 59 then 2047 * 2 ^ 48 < data else 2047 * 2 ^ 48 < data - 2 ^ 59 := by
  rw [Binary64.isNan,magnitude,doubleFromData,decide_eq_true_iff]
  split <;> omega

theorem key_of_lt (small : data < 2 ^ 59) : Binary64.key (doubleFromData data) = (data * 2 ^ 4 : Nat) := by
  have positive : Binary64.isNegative (doubleFromData data) = false := by
    rw [← not_eq_true,isNegative_iff]
    omega
  rw [Binary64.key,positive]
  simp only [false_eq_true,if_false,magnitude,doubleFromData]
  omega

theorem key_of_ge (large : 2 ^ 59 ≤ data) (fits : data < 2 ^ 60) :
    Binary64.key (doubleFromData data) = -((data - 2 ^ 59) * 2 ^ 4 : Nat) := by
  rw [Binary64.key,isNegative_iff.mpr large]
  simp only [if_true,magnitude,doubleFromData]
  omega

variable {value : NumericValue} {data : Nat}

theorem compare_double_nan (isNan : Binary64.isNan (doubleFromData data) = true) : (NumericValue.double (doubleFromData data)).compare value = none := by
  simp [NumericValue.compare,NumericValue.toDouble,Binary64.compare,isNan]

section
variable (fits : value.Fits) (notNan : value.isNan = false) (isNumber : Binary64.isNan (doubleFromData data) = false)
include fits notNan isNumber

theorem compare_double :
    (NumericValue.double (doubleFromData data)).compare value =
      some (cmp (Binary64.key (doubleFromData data)) (Binary64.key value.toDouble)) := by
  have isValue := NumericValue.isNan_toDouble fits
  rw [notNan] at isValue
  rw [NumericValue.compare,Binary64.compare,isValue]
  · rw [NumericValue.toDouble,isNumber]
    rfl
  · simp

theorem double_compare :
    value.compare (NumericValue.double (doubleFromData data)) =
      some (cmp (Binary64.key value.toDouble) (Binary64.key (doubleFromData data))) := by
  have isValue := NumericValue.isNan_toDouble fits
  rw [notNan] at isValue
  cases value <;> simp [NumericValue.compare,NumericValue.toDouble,Binary64.compare,isNumber] <;> simpa [NumericValue.toDouble] using isValue

theorem isLess_double :
    isLess (.double (doubleFromData data)) value = true ↔ Binary64.key (doubleFromData data) < Binary64.key value.toDouble := by
  rw [isLess,compare_double fits notNan isNumber,beq_iff_eq,some_inj,cmp_eq_lt_iff]

theorem double_isLess :
    isLess value (.double (doubleFromData data)) = true ↔ Binary64.key value.toDouble < Binary64.key (doubleFromData data) := by
  rw [isLess,double_compare fits notNan isNumber,beq_iff_eq,some_inj,cmp_eq_lt_iff]

end

variable {Word : Type} {ids : List (ValueId Word)} {first beginOfNans beginOfNegatives last : Nat}

/-- The doubles of a sorted list: the positive ones, the NaNs without sign bit and the negative ones. -/
structure DoubleParts (ids : List (ValueId Word)) (first beginOfNans beginOfNegatives last : Nat) : Prop where
  ordered : OrderedData ids first last
  lower : first ≤ beginOfNans
  middle : beginOfNans ≤ beginOfNegatives
  upper : beginOfNegatives ≤ last
  positive : ∀ i id,ids[i]? = some id → first ≤ i → i < last → (i < beginOfNans ↔ dataOf id < 2047 * 2 ^ 48 + 1)
  negative : ∀ i id,ids[i]? = some id → first ≤ i → i < last → (i < beginOfNegatives ↔ dataOf id < 2 ^ 59)

theorem OrderedData.doubleParts (ordered : OrderedData ids first last) :
    ∃ beginOfNans beginOfNegatives,search (fun id => !doubleIdIsNegative id && !(getDouble id).isNan) ids first last = some beginOfNans ∧
      search (fun id => !doubleIdIsNegative id) ids first last = some beginOfNegatives ∧ DoubleParts ids first beginOfNans beginOfNegatives last := by
  have isNegative : ∀ (i : Nat) id,ids[i]? = some id → first ≤ i → i < last → ((!doubleIdIsNegative id) = true ↔ dataOf id < 2 ^ 59) := by
    intro i id isId above below
    rw [doubleIdIsNegative,getDouble_eq,NumericValue.toDouble,not_eq_true',← not_eq_true,isNegative_iff]
    omega
  obtain ⟨beginOfNegatives,isNegatives,lower',upper,negative⟩ := ordered.search_bound isNegative
  have isPositive : ∀ (i : Nat) id,ids[i]? = some id → first ≤ i → i < last →
      ((!doubleIdIsNegative id && !(getDouble id).isNan) = true ↔ dataOf id < 2047 * 2 ^ 48 + 1) := by
    intro i id isId above below
    have fits := ordered.fits i id isId
    have nan := isNan_iff fits
    rw [and_eq_true,isNegative i id isId above below,getDouble_eq,NumericValue.isNan,not_eq_true',← not_eq_true,nan]
    split <;> omega
  obtain ⟨beginOfNans,isNans,lower,upper',positive⟩ := ordered.search_bound isPositive
  refine ⟨beginOfNans,beginOfNegatives,isNans,isNegatives,ordered,lower,?_,upper,positive,negative⟩
  by_contra reversed
  have inside := ordered.inside
  have isId := List.getElem?_eq_getElem (show beginOfNegatives < ids.length by omega)
  have isPositive := (positive _ _ isId lower' (by omega)).mp (by omega)
  have notNegative := (negative _ _ isId lower' (by omega)).mpr (by omega)
  omega

namespace DoubleParts
variable (parts : DoubleParts ids first beginOfNans beginOfNegatives last)
include parts

section
variable {i : Nat} {id : ValueId Word} (isId : ids[i]? = some id)
include isId

theorem number_of_positive (above : first ≤ i) (below : i < beginOfNans) :
    Binary64.isNan (doubleFromData (dataOf id)) = false ∧ Binary64.key (doubleFromData (dataOf id)) = (dataOf id * 2 ^ 4 : Nat) := by
  have middle := parts.middle
  have upper := parts.upper
  have small := (parts.positive i id isId above (by omega)).mp below
  constructor
  · rw [← not_eq_true,isNan_iff (parts.ordered.fits i id isId),if_pos (by omega)]
    omega
  · exact key_of_lt (by omega)

theorem isNan_of_middle (above : beginOfNans ≤ i) (below : i < beginOfNegatives) :
    Binary64.isNan (doubleFromData (dataOf id)) = true := by
  have lower := parts.lower
  have upper := parts.upper
  have large := (parts.positive i id isId (by omega) (by omega)).not.mp (by omega)
  have small := (parts.negative i id isId (by omega) (by omega)).mp below
  rw [isNan_iff (parts.ordered.fits i id isId),if_pos small]
  omega

theorem key_of_negative (above : beginOfNegatives ≤ i) (below : i < last) :
    2 ^ 59 ≤ dataOf id ∧ Binary64.key (doubleFromData (dataOf id)) = -((dataOf id - 2 ^ 59) * 2 ^ 4 : Nat) := by
  have lower := parts.lower
  have middle := parts.middle
  have large := (parts.negative i id isId (by omega) below).not.mp (by omega)
  exact ⟨by omega,key_of_ge (by omega) (parts.ordered.fits i id isId)⟩

end

theorem equalRange_positive (fits : value.Fits) (notNan : value.isNan = false) :
    ∃ range,equalRange (fun id => isLess (getDouble id) value) (fun id => isLess value (getDouble id)) ids first beginOfNans = some range ∧
      Cut (fun id => (getDouble id).compare value) ids first beginOfNans
        [(some .lt,(first,range.1)),(some .eq,range),(some .gt,(range.2,beginOfNans))] := by
  have part := parts.ordered.part (le_refl _) parts.lower (parts.middle.trans parts.upper)
  obtain ⟨range,isEqual,cuts⟩ : ∃ range,
      equalRange (fun id => isLess (getDouble id) value) (fun id => isLess value (getDouble id)) ids first beginOfNans = some range ∧
        IsEqualRange (fun id => Binary64.key (doubleFromData (dataOf id))) (Binary64.key value.toDouble) ids first beginOfNans range := by
    apply equalRange_spec _ _ part.le part.inside
    · intro i id isId above below
      have isNumber := (parts.number_of_positive isId above below).1
      rw [getDouble_eq,isLess_double fits notNan isNumber,double_isLess fits notNan isNumber]
      exact ⟨Iff.rfl,Iff.rfl⟩
    · intro i j x y above before below isFirst isSecond
      have dataLe := part.data_le i j x y above before below isFirst isSecond
      rw [(parts.number_of_positive isFirst above (by omega)).2,(parts.number_of_positive isSecond (by omega) below).2]
      omega
  refine ⟨range,isEqual,cuts.cut ?_⟩
  intro i id isId above below
  rw [getDouble_eq,compare_double fits notNan (parts.number_of_positive isId above below).1]

theorem equalRange_negative (fits : value.Fits) (notNan : value.isNan = false)
    (numbers : ∀ i id,ids[i]? = some id → beginOfNegatives ≤ i → i < last → Binary64.isNan (doubleFromData (dataOf id)) = false) :
    ∃ range,equalRange (fun id => isLess value (getDouble id)) (fun id => isLess (getDouble id) value) ids beginOfNegatives last = some range ∧
      Cut (fun id => (getDouble id).compare value) ids beginOfNegatives last
        [(some .gt,(beginOfNegatives,range.1)),(some .eq,range),(some .lt,(range.2,last))] := by
  have part := parts.ordered.part (parts.lower.trans parts.middle) parts.upper (le_refl _)
  obtain ⟨range,isEqual,cuts⟩ : ∃ range,
      equalRange (fun id => isLess value (getDouble id)) (fun id => isLess (getDouble id) value) ids beginOfNegatives last = some range ∧
        IsEqualRange (fun id => -Binary64.key (doubleFromData (dataOf id))) (-Binary64.key value.toDouble) ids beginOfNegatives last range := by
    apply equalRange_spec _ _ part.le part.inside
    · intro i id isId above below
      have isNumber := numbers i id isId above below
      rw [getDouble_eq,isLess_double fits notNan isNumber,double_isLess fits notNan isNumber]
      omega
    · intro i j x y above before below isFirst isSecond
      have dataLe := part.data_le i j x y above before below isFirst isSecond
      have isLarge := (parts.key_of_negative isFirst above (by omega)).1
      rw [(parts.key_of_negative isFirst above (by omega)).2,(parts.key_of_negative isSecond (by omega) below).2]
      omega
  have lower := cuts.lower
  have middle := cuts.middle
  have upper := cuts.upper
  have order : ∀ i id,ids[i]? = some id → beginOfNegatives ≤ i → i < last →
      (getDouble id).compare value = some (cmp (Binary64.key (doubleFromData (dataOf id))) (Binary64.key value.toDouble)) := by
    intro i id isId above below
    rw [getDouble_eq,compare_double fits notNan (numbers i id isId above below)]
  refine ⟨range,isEqual,?_⟩
  have greater : Cut (fun id => (getDouble id).compare value) ids beginOfNegatives range.1 [(some .gt,(beginOfNegatives,range.1))] := by
    apply cut_single lower
    intro i id isId above below
    have isGreater := cuts.smaller i id isId above below
    rw [order i id isId above (by omega),(cmp_eq_gt_iff _ _).mpr (by omega)]
  have equal : Cut (fun id => (getDouble id).compare value) ids range.1 range.2 [(some .eq,range)] := by
    apply cut_single middle
    intro i id isId above below
    have isEqual := cuts.equal i id isId above below
    rw [order i id isId (by omega) (by omega),(cmp_eq_eq_iff _ _).mpr (by omega)]
  have smaller : Cut (fun id => (getDouble id).compare value) ids range.2 last [(some .lt,(range.2,last))] := by
    apply cut_single upper
    intro i id isId above below
    have isSmaller := cuts.greater i id isId above below
    rw [order i id isId (by omega) below,(cmp_eq_lt_iff _ _).mpr (by omega)]
  exact greater.append (equal.append smaller middle upper) lower (by omega)

theorem nans_cut : Cut (fun id => (getDouble id).compare value) ids beginOfNans beginOfNegatives [(none,(beginOfNans,beginOfNegatives))] := by
  apply cut_single parts.middle
  intro i id isId above below
  rw [getDouble_eq,compare_double_nan (parts.isNan_of_middle isId above below)]

end DoubleParts

theorem Cut.around {order : ValueId Word → Option Ordering} {nans : Piece} {pieces pieces' : List Piece}
    (left : Cut order ids first beginOfNans pieces) (inner : Cut order ids beginOfNans beginOfNegatives [nans])
    (right : Cut order ids beginOfNegatives last pieces') (lower : first ≤ beginOfNans) (middle : beginOfNans ≤ beginOfNegatives)
    (upper : beginOfNegatives ≤ last) : Cut order ids first last (nans :: (pieces ++ pieces')) := by
  apply ((left.append inner lower middle).append right (by omega) upper).perm
  rw [append_assoc,singleton_append]
  exact perm_middle.symm

def NanSafe (value : NumericValue) (id : ValueId Word) : Prop :=
  getDatatype id = .encoded .Double → (getDouble id).isNan = true → value.isNan = true ∨ (doubleIdIsNegative id = false ∧ value.keyForInts ≠ 0)

def zeros (ids : List (ValueId Word)) : Nat := ids.countP (fun id => getDatatype id = .encoded .Double && dataOf id = 0)

def numbers (ids : List (ValueId Word)) : Nat :=
  ids.countP (fun id => getDatatype id = .encoded .Double && !doubleIdIsNegative id && !(getDouble id).isNan)

def nans (ids : List (ValueId Word)) : Nat :=
  ids.countP (fun id => getDatatype id = .encoded .Double && !doubleIdIsNegative id && (getDouble id).isNan)

/-- Where the NaNs among the IDs do not disturb the searches for a value. A NaN with sign bit stands behind the negative numbers. The search
for the end of the zeros runs over all doubles without sign bit, and its first probe behind the zeros must not be a NaN. -/
def Searchable (value : NumericValue) (ids : List (ValueId Word)) : Prop :=
  value.isNan = true ∨
    ((∀ id ∈ ids,getDatatype id = .encoded .Double → (getDouble id).isNan = true → doubleIdIsNegative id = false) ∧
      (value.keyForInts = 0 → nans ids = 0 ∨ firstProbe (zeros ids) (numbers ids + nans ids) < numbers ids))

theorem searchable_of_nanSafe (safe : ∀ id ∈ ids,NanSafe value id) : Searchable value ids := by
  rw [Searchable,or_iff_not_imp_left]
  intro notNan
  refine ⟨?_,?_⟩
  · intro id isMember isDouble isNan
    exact ((safe id isMember isDouble isNan).resolve_left notNan).1
  · intro zero
    left
    rw [nans,countP_eq_zero]
    intro id isMember isNan
    simp only [and_eq_true,decide_eq_true_eq] at isNan
    exact ((safe id isMember isNan.1.1 isNan.2).resolve_left notNan).2 zero

theorem isDouble_iff (id : ValueId Word) : getDatatype id = .encoded .Double ↔ (getDatatype id).group = (Datatype.encoded .Double).group := by
  constructor
  · intro same
    rw [same]
  · intro same
    obtain ⟨data,rfl⟩ := encoded_of_group (Or.inr rfl) same
    rfl

section Counts
variable (parts : DoubleParts ids first beginOfNans beginOfNegatives last)
  (exactly : ∀ (i : Nat) id,ids[i]? = some id → (first ≤ i ∧ i < last ↔ (getDatatype id).group = (Datatype.encoded .Double).group))
include parts exactly

theorem DoubleParts.numbers_eq : numbers ids = beginOfNans - first := by
  have middle := parts.middle
  have upper := parts.upper
  apply countP_eq parts.lower (middle.trans (upper.trans parts.ordered.inside))
  intro i id isId
  rw [and_eq_true,and_eq_true,decide_eq_true_eq,isDouble_iff,← exactly i id isId]
  constructor
  · rintro ⟨⟨⟨above,below⟩,positive⟩,isNumber⟩
    refine ⟨above,?_⟩
    rw [parts.positive i id isId above below]
    rw [not_eq_true',← not_eq_true,doubleIdIsNegative,getDouble_eq,NumericValue.toDouble,isNegative_iff] at positive
    rw [not_eq_true',← not_eq_true,getDouble_eq,NumericValue.isNan,isNan_iff (parts.ordered.fits i id isId),if_pos (by omega)] at isNumber
    omega
  · rintro ⟨above,below⟩
    have small := (parts.positive i id isId above (by omega)).mp below
    refine ⟨⟨⟨above,by omega⟩,?_⟩,?_⟩
    · rw [not_eq_true',← not_eq_true,doubleIdIsNegative,getDouble_eq,NumericValue.toDouble,isNegative_iff]
      omega
    · rw [getDouble_eq,NumericValue.isNan,(parts.number_of_positive isId above below).1]
      rfl

theorem DoubleParts.nans_eq : nans ids = beginOfNegatives - beginOfNans := by
  have lower := parts.lower
  have upper := parts.upper
  apply countP_eq parts.middle (upper.trans parts.ordered.inside)
  intro i id isId
  rw [and_eq_true,and_eq_true,decide_eq_true_eq,isDouble_iff,← exactly i id isId]
  constructor
  · rintro ⟨⟨⟨above,below⟩,positive⟩,isNan⟩
    rw [not_eq_true',← not_eq_true,doubleIdIsNegative,getDouble_eq,NumericValue.toDouble,isNegative_iff] at positive
    refine ⟨?_,(parts.negative i id isId above below).mpr (by omega)⟩
    by_contra before
    rw [getDouble_eq,NumericValue.isNan,(parts.number_of_positive isId above (by omega)).1] at isNan
    cases isNan
  · rintro ⟨above,below⟩
    have small := (parts.negative i id isId (by omega) (by omega)).mp below
    refine ⟨⟨⟨by omega,by omega⟩,?_⟩,?_⟩
    · rw [not_eq_true',← not_eq_true,doubleIdIsNegative,getDouble_eq,NumericValue.toDouble,isNegative_iff]
      omega
    · rw [getDouble_eq]
      exact parts.isNan_of_middle isId above below

theorem DoubleParts.zeros_eq {point : Nat} (lower : first ≤ point) (upper : point ≤ beginOfNans)
    (isEnd : ∀ i id,ids[i]? = some id → first ≤ i → i < beginOfNans → (i < point ↔ dataOf id < 1)) : zeros ids = point - first := by
  have middle := parts.middle
  have upper' := parts.upper
  have inside := parts.ordered.inside
  apply countP_eq lower (by omega)
  intro i id isId
  rw [and_eq_true,decide_eq_true_eq,decide_eq_true_eq,isDouble_iff,← exactly i id isId]
  constructor
  · rintro ⟨⟨above,below⟩,isZero⟩
    have positive := (parts.positive i id isId above below).mpr (by omega)
    exact ⟨above,(isEnd i id isId above positive).mpr (by omega)⟩
  · rintro ⟨above,below⟩
    have isZero := (isEnd i id isId above (by omega)).mp below
    exact ⟨⟨above,by omega⟩,by omega⟩

theorem DoubleParts.search_zeros :
    ∃ point,first ≤ point ∧ point ≤ beginOfNans ∧ (∀ i id,ids[i]? = some id → first ≤ i → i < beginOfNans → (i < point ↔ dataOf id < 1)) ∧
      search (fun id => !isLess (.double 0) (getDouble id)) ids first beginOfNegatives =
        some (if nans ids = 0 ∨ firstProbe (zeros ids) (numbers ids + nans ids) < numbers ids then point else beginOfNegatives) := by
  have lower := parts.lower
  have middle := parts.middle
  have upper := parts.upper
  have inside := parts.ordered.inside
  have zeroKey : Binary64.key (NumericValue.double 0).toDouble = 0 := by decide
  have zeroFits : (NumericValue.double 0).Fits := trivial
  have zeroNumber : (NumericValue.double 0).isNan = false := by decide
  have isTest : ∀ i id,ids[i]? = some id → first ≤ i → i < beginOfNans → ((!isLess (.double 0) (getDouble id)) = true ↔ dataOf id < 1) := by
    intro i id isId above below
    obtain ⟨isNumber,key⟩ := parts.number_of_positive isId above below
    rw [not_eq_true',← not_eq_true,getDouble_eq,double_isLess zeroFits zeroNumber isNumber,key,zeroKey]
    omega
  obtain ⟨point,isPoint,lower',upper',isEnd⟩ := (parts.ordered.part (le_refl _) lower (middle.trans upper)).search_bound isTest
  refine ⟨point,lower',upper',isEnd,?_⟩
  have isZeros := parts.zeros_eq exactly lower' upper' isEnd
  have isNumbers := parts.numbers_eq exactly
  have isNans := parts.nans_eq exactly
  rcases Nat.eq_or_lt_of_le middle with same | some
  · rw [if_pos (Or.inl (by omega)),← same]
    exact isPoint
  · rw [search_twoCuts (upper.trans inside) lower' upper' middle]
    · rw [isNumbers,isNans,isZeros,show beginOfNans - first + (beginOfNegatives - beginOfNans) = beginOfNegatives - first by omega]
      exact congrArg Option.some (if_congr (by omega) rfl rfl)
    · intro i id isId above below
      exact (isTest i id isId above (by omega)).mpr ((isEnd i id isId above (by omega)).mp below)
    · intro i id isId above below
      rw [← not_eq_true,isTest i id isId (by omega) below,← isEnd i id isId (by omega) below]
      omega
    · intro i id isId above below
      have isNan : (getDouble id).isNan = true := by
        rw [getDouble_eq]
        exact parts.isNan_of_middle isId above below
      rw [isLess,compare_isNan isNan]
      rfl

end Counts

theorem DoubleParts.searches_zero (parts : DoubleParts ids first beginOfNans beginOfNegatives last) (fits : value.Fits) (notNan : value.isNan = false)
    (zero : value.keyForInts = 0)
    (negatives : ∀ i id,ids[i]? = some id → beginOfNegatives ≤ i → i < last → Binary64.isNan (doubleFromData (dataOf id)) = false)
    {positiveEnd : Nat} (lower' : first ≤ positiveEnd) (upper' : positiveEnd ≤ beginOfNans)
    (positive : ∀ i id,ids[i]? = some id → first ≤ i → i < beginOfNans → (i < positiveEnd ↔ dataOf id < 1)) :
    ∃ negativeEnd,search (fun id => !isLess (getDouble id) (.double 0)) ids beginOfNegatives last = some negativeEnd ∧
      Cut (fun id => (getDouble id).compare value) ids first beginOfNans [(some .eq,(first,positiveEnd)),(some .gt,(positiveEnd,beginOfNans))] ∧
      Cut (fun id => (getDouble id).compare value) ids beginOfNegatives last [(some .eq,(beginOfNegatives,negativeEnd)),(some .lt,(negativeEnd,last))] := by
  have isZero : Binary64.key value.toDouble = 0 := by
    have notPositive := (NumericValue.key_pos_iff fits).not.mpr (by omega)
    have notNegative := (NumericValue.key_neg_iff fits).not.mpr (by omega)
    omega
  have zeroKey : Binary64.key (NumericValue.double 0).toDouble = 0 := by decide
  have zeroFits : (NumericValue.double 0).Fits := trivial
  have zeroNumber : (NumericValue.double 0).isNan = false := by decide
  have lower := parts.lower
  have middle := parts.middle
  have upper := parts.upper
  obtain ⟨negativeEnd,isNegative,lower'',upper'',negative⟩ : ∃ point,
      search (fun id => !isLess (getDouble id) (.double 0)) ids beginOfNegatives last = some point ∧ beginOfNegatives ≤ point ∧ point ≤ last ∧
        ∀ i id,ids[i]? = some id → beginOfNegatives ≤ i → i < last → (i < point ↔ dataOf id < 2 ^ 59 + 1) := by
    apply (parts.ordered.part (lower.trans middle) upper (le_refl _)).search_bound
    intro i id isId above below
    obtain ⟨large,key⟩ := parts.key_of_negative isId above below
    rw [not_eq_true',← not_eq_true,getDouble_eq,isLess_double zeroFits zeroNumber (negatives i id isId above below),key,zeroKey]
    omega
  have order : ∀ id : ValueId Word,Binary64.isNan (doubleFromData (dataOf id)) = false →
      (getDouble id).compare value = some (cmp (Binary64.key (doubleFromData (dataOf id))) 0) := by
    intro id isNumber
    rw [getDouble_eq,compare_double fits notNan isNumber,isZero]
  refine ⟨negativeEnd,isNegative,?_,?_⟩
  · refine (cut_single lower' ?_).append (cut_single upper' ?_) lower' upper'
    · intro i id isId above below
      have small := (positive i id isId above (by omega)).mp below
      obtain ⟨isNumber,key⟩ := parts.number_of_positive isId above (by omega)
      rw [order id isNumber,key,(cmp_eq_eq_iff _ _).mpr (by omega)]
    · intro i id isId above below
      have large := (positive i id isId (by omega) below).not.mp (by omega)
      obtain ⟨isNumber,key⟩ := parts.number_of_positive isId (by omega) below
      rw [order id isNumber,key,(cmp_eq_gt_iff _ _).mpr (by omega)]
  · refine (cut_single lower'' ?_).append (cut_single upper'' ?_) lower'' upper''
    · intro i id isId above below
      have small := (negative i id isId above (by omega)).mp below
      rw [order id (negatives i id isId above (by omega)),(parts.key_of_negative isId above (by omega)).2,(cmp_eq_eq_iff _ _).mpr (by omega)]
    · intro i id isId above below
      have large := (negative i id isId (by omega) below).not.mp (by omega)
      rw [order id (negatives i id isId (by omega) below),(parts.key_of_negative isId (by omega) below).2,(cmp_eq_lt_iff _ _).mpr (by omega)]

theorem getRangesForDouble_spec (sorted : NumbersInOrder ids) (fits : ∀ id ∈ ids,FitsData id) (fitsValue : value.Fits)
    (searchable : Searchable value ids) :
    ∃ pieces,(∀ comparison,getRangesForDouble ids value comparison = some (pieceRanges comparison pieces)) ∧
      Classified ids (fun id => (getDatatype id).group = (Datatype.encoded .Double).group) (fun id => (getDouble id).compare value) pieces := by
  obtain ⟨first,last,isRange,ordered,exactly⟩ := getRangeForNumeric_spec sorted fits (Or.inr rfl)
  cases isNan : value.isNan with
  | true =>
    refine ⟨[(none,(first,last))],?_,(cut_single ordered.le (fun i id isId above below => compare_isNan isNan)).classified ordered.inside exactly⟩
    intro comparison
    rw [getRangesForDouble,isRange,pieceRanges_none]
    simp [isNan]
  | false =>
    obtain ⟨beginOfNans,beginOfNegatives,isNans,isNegatives,parts⟩ := ordered.doubleParts
    have lower := parts.lower
    have middle := parts.middle
    have upper := parts.upper
    obtain ⟨noNans,zerosFound⟩ := searchable.resolve_left (by rw [isNan]; exact Bool.false_ne_true)
    have negatives : ∀ i id,ids[i]? = some id → beginOfNegatives ≤ i → i < last → Binary64.isNan (doubleFromData (dataOf id)) = false := by
      intro i id isId above below
      by_contra notNumber
      have positive := noNans id (mem_of_getElem? isId) ((isDouble_iff id).mpr ((exactly i id isId).mp ⟨by omega,below⟩)) (by
        rw [getDouble_eq]
        exact Bool.not_eq_false _ ▸ notNumber)
      rw [doubleIdIsNegative,getDouble_eq,NumericValue.toDouble,← not_eq_true,isNegative_iff] at positive
      exact positive (parts.key_of_negative isId above below).1
    rcases lt_trichotomy 0 value.keyForInts with positive | zero | negative
    · have isPositive := (NumericValue.zero_isLess isNan).mpr positive
      obtain ⟨range,isEqual,cut⟩ := parts.equalRange_positive fitsValue isNan
      have smaller : Cut (fun id => (getDouble id).compare value) ids beginOfNegatives last [(some .lt,(beginOfNegatives,last))] := by
        apply cut_single upper
        intro i id isId above below
        have key := (parts.key_of_negative isId above below).2
        have isValue := (NumericValue.key_pos_iff fitsValue).mpr positive
        rw [getDouble_eq,compare_double fitsValue isNan (negatives i id isId above below),(cmp_eq_lt_iff _ _).mpr (by omega)]
      refine ⟨_,?_,(cut.around parts.nans_cut smaller lower middle upper).classified ordered.inside exactly⟩
      intro comparison
      rw [getRangesForDouble,isRange]
      simp only [bind_eq_bind,bind_some,isNan,isNans,isNegatives,isPositive,isEqual,false_eq_true,if_false,if_true,
        addSmaller_eq,addEqual_eq,addGreater_eq,addNotEqual_eq,nil_append,
        append_assoc,← pieceRanges_append,guard,ge_iff_le,middle]
      rfl
    · have notPositive : isLess (.int 0) value = false := by
        rw [← not_eq_true,NumericValue.zero_isLess isNan]
        omega
      have notNegative : isLess value (.int 0) = false := by
        rw [← not_eq_true,NumericValue.isLess_zero isNan]
        omega
      obtain ⟨positiveEnd,lower',upper',isEnd,isPositiveEnd⟩ := parts.search_zeros exactly
      rw [if_pos (zerosFound zero.symm)] at isPositiveEnd
      obtain ⟨negativeEnd,isNegativeEnd,positives,smaller⟩ := parts.searches_zero fitsValue isNan zero.symm negatives lower' upper' isEnd
      refine ⟨_,?_,(positives.around parts.nans_cut smaller lower middle upper).classified ordered.inside exactly⟩
      intro comparison
      rw [getRangesForDouble,isRange]
      simp only [bind_eq_bind,bind_some,isNan,isNans,isNegatives,notPositive,notNegative,isPositiveEnd,isNegativeEnd,
        false_eq_true,if_false,if_true,addSmaller_eq,addEqual_eq,addGreater_eq,
        addNotEqual_eq,nil_append,append_assoc,← pieceRanges_append,guard,ge_iff_le,middle]
      rfl
    · have notPositive : isLess (.int 0) value = false := by
        rw [← not_eq_true,NumericValue.zero_isLess isNan]
        omega
      have isNegative := (NumericValue.isLess_zero isNan).mpr negative
      obtain ⟨range,isEqual,cut⟩ := parts.equalRange_negative fitsValue isNan negatives
      have greater : Cut (fun id => (getDouble id).compare value) ids first beginOfNans [(some .gt,(first,beginOfNans))] := by
        apply cut_single lower
        intro i id isId above below
        obtain ⟨isNumber,key⟩ := parts.number_of_positive isId above below
        have isValue := (NumericValue.key_neg_iff fitsValue).mpr negative
        rw [getDouble_eq,compare_double fitsValue isNan isNumber,(cmp_eq_gt_iff _ _).mpr (by omega)]
      refine ⟨_,?_,(greater.around parts.nans_cut cut lower middle upper).classified ordered.inside exactly⟩
      intro comparison
      rw [getRangesForDouble,isRange]
      simp only [bind_eq_bind,bind_some,isNan,isNans,isNegatives,notPositive,isNegative,isEqual,false_eq_true,if_false,if_true,
        addSmaller_eq,addEqual_eq,addGreater_eq,addNotEqual_eq,nil_append,
        append_assoc,← pieceRanges_append,guard,ge_iff_le,middle]
      rfl

end Doubles

section Ids
variable {Word : Type} [LinearOrder Word] (vocab : Vocabulary Word)

def orderByBits (id valueId : ValueId Word) : Option Ordering :=
  match getNumeric id,getNumeric valueId with
  | some first,some second => first.compare second
  | _,_ => some (id.compare vocab valueId)

variable {vocab} {ids : List (ValueId Word)}

theorem compatible_iff_group {typeA typeB : Datatype} (defined : typeB ≠ .encoded .Undefined) (notNumeric : typeB.isNumeric = false) :
    areTypesCompatible typeA typeB = true ↔ typeA.group = typeB.group := by
  rcases typeB with ⟨_ | _ | _ | _ | _ | _ | _ | _⟩ | _ | _ | _ <;> first | exact absurd rfl defined | (cases notNumeric; done) | skip
  all_goals rcases typeA with ⟨_ | _ | _ | _ | _ | _ | _ | _⟩ | _ | _ | _ <;> decide

theorem compatible_numeric {typeA typeB : Datatype} (numeric : typeB.isNumeric = true) :
    areTypesCompatible typeA typeB = true ↔ typeA.group = (Datatype.encoded .Double).group ∨ typeA.group = (Datatype.encoded .Int).group := by
  rcases typeB with ⟨_ | _ | _ | _ | _ | _ | _ | _⟩ | _ | _ | _ <;> first | (cases numeric; done) | skip
  all_goals rcases typeA with ⟨_ | _ | _ | _ | _ | _ | _ | _⟩ | _ | _ | _ <;> decide

section
omit [LinearOrder Word]

theorem isNumeric_iff (id : ValueId Word) : (getDatatype id).isNumeric = (getNumeric id).isSome := by
  cases id with
  | encoded datatype data => cases datatype <;> rfl
  | _ => rfl

section
variable {valueId : ValueId Word} {value : NumericValue}

theorem defined_of_number (isNumber : getNumeric valueId = some value) :
    getDatatype valueId ≠ .encoded .Undefined := by
  intro undefined
  have numeric := isNumeric_iff valueId
  rw [undefined,isNumber] at numeric
  cases numeric

theorem getNumeric_fits (fits : FitsData valueId) (isValue : getNumeric valueId = some value) :
    value.Fits := by
  cases valueId with
  | encoded datatype data =>
    cases datatype <;> simp only [getNumeric,some_inj,reduceCtorEq] at isValue
    · rw [← isValue]
      exact fromNBit_small fits
    · rw [← isValue]
      trivial
  | _ => cases isValue

end

end

theorem orderOfValues_eq (id constant : ValueId Word) (notBool : ∀ bits bits',id = .encoded .Bool bits → constant ≠ .encoded .Bool bits') :
    orderOfValues vocab id constant = orderByBits vocab id constant := by
  unfold orderOfValues orderByBits
  split
  next bits bits' => exact absurd rfl (notBool bits bits' rfl)
  next => rfl

theorem orderByBits_bool (bits bits' : Nat) :
    orderByBits vocab (.encoded .Bool bits) (.encoded .Bool bits' : ValueId Word) = some (cmp bits bits') := by
  have order : (ValueId.encoded .Bool bits).compare vocab (.encoded .Bool bits') = cmp bits bits' := by
    rw [ValueId.compare_eq]
    apply ValueId.cmp_congr <;> simp [ValueId.value,Prod.Lex.toLex_lt_toLex]
  rw [← order]
  rfl

/-- The ranges are those of the compatible IDs for which the comparison of the bits holds. -/
def Selects (vocab : Vocabulary Word) (ids : List (ValueId Word)) (valueId : ValueId Word) (comparison : Comparison) : Prop :=
  ∃ ranges,getRangesForId vocab ids valueId comparison true = some ranges ∧ Separated ranges ∧ (∀ i,Covers ranges i → i < ids.length) ∧
    ∀ i id,ids[i]? = some id →
      (Covers ranges i ↔ areTypesCompatible (getDatatype id) (getDatatype valueId) = true ∧ comparison.holds (orderByBits vocab id valueId) = true)

variable {valueId : ValueId Word}

theorem getRangesForNumber_spec (sorted : NumbersInOrder ids) (fits : ∀ id ∈ ids,FitsData id) (fitsValue : FitsData valueId)
    {value : NumericValue} (isNumber : getNumeric valueId = some value) (searchable : Searchable value ids) (comparison : Comparison) :
    Selects vocab ids valueId comparison := by
  have numeric : (getDatatype valueId).isNumeric = true := by
    rw [isNumeric_iff,isNumber]
    rfl
  obtain ⟨pieces,isDouble,doubles⟩ := getRangesForDouble_spec sorted fits (getNumeric_fits fitsValue isNumber) searchable
  obtain ⟨pieces',isInt,ints⟩ := getRangesForInt_spec sorted fits value
  have doubles' : Classified ids (fun id => (getDatatype id).group = (Datatype.encoded .Double).group) (fun id => orderByBits vocab id valueId) pieces := by
    apply doubles.congr
    intro i id isId same
    obtain ⟨data,rfl⟩ := encoded_of_group (Or.inr rfl) same
    rw [orderByBits,isNumber]
    rfl
  have ints' : Classified ids (fun id => (getDatatype id).group = (Datatype.encoded .Int).group) (fun id => orderByBits vocab id valueId) pieces' := by
    apply ints.congr
    intro i id isId same
    obtain ⟨data,rfl⟩ := encoded_of_group (Or.inl rfl) same
    rw [orderByBits,isNumber]
    rfl
  have classified := doubles'.append ints' (by
    intro id isFirst isSecond
    rw [isFirst] at isSecond
    cases isSecond)
  obtain ⟨separated,bounded,covers⟩ := simplified_spec classified comparison
  refine ⟨_,?_,separated,bounded,?_⟩
  · rw [getRangesForId,if_neg (defined_of_number isNumber),isNumber]
    simp only [getRangesForIntsAndDoubles,isDouble,isInt,bind_eq_bind,bind_some,Option.map_some,← pieceRanges_append,Option.pure_def]
  · intro i id isId
    rw [covers i id isId,compatible_numeric numeric]

theorem getRangesForOther_spec (sorted : SortedIds vocab ids) (notNumber : getNumeric valueId = none) (comparison : Comparison) :
    Selects vocab ids valueId comparison := by
  rw [Selects,getRangesForId]
  split
  next undefined =>
    refine ⟨[],rfl,separated_nil,by simp,?_⟩
    intro i id isId
    rw [undefined]
    simp only [covers_nil,false_iff,not_and]
    intro compatible
    rcases isType : getDatatype id with ⟨_ | _ | _ | _ | _ | _ | _ | _⟩ | _ | _ | _ <;> rw [isType] at compatible <;> cases compatible
  next defined =>
    have notNumeric : (getDatatype valueId).isNumeric = false := by
      rw [isNumeric_iff,notNumber]
      rfl
    obtain ⟨pieces,isIndex,index⟩ := getRangesForIndexTypes_spec sorted valueId
    obtain ⟨separated,bounded,covers⟩ := simplified_spec index comparison
    refine ⟨_,?_,separated,bounded,?_⟩
    · simp only [notNumber,isIndex,Option.map_some]
    · intro i id isId
      rw [covers i id isId,compatible_iff_group defined notNumeric]
      cases getNumeric id <;> simp [orderByBits,notNumber]

theorem getRangesForId_spec (sorted : SortedIds vocab ids) (fits : ∀ id ∈ ids,FitsData id) (fitsValue : FitsData valueId)
    (safe : ∀ value,getNumeric valueId = some value → ∀ id ∈ ids,NanSafe value id) (comparison : Comparison) :
    Selects vocab ids valueId comparison := by
  cases isNumber : getNumeric valueId with
  | some value =>
    exact getRangesForNumber_spec sorted.numbersInOrder fits fitsValue isNumber (searchable_of_nanSafe (safe value isNumber)) comparison
  | none => exact getRangesForOther_spec sorted isNumber comparison

end Ids
end Qlever.ValueIdComparators
