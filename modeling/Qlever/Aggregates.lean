import Qlever.Library.KeepBest
import Qlever.OrderByComparison

/-! The aggregates COUNT, SUM, MIN, MAX and SAMPLE in two versions: `GroupByHashMapOptimization.h` adds one value after the other to the data of a group,
and `AggregateExpression.h` evaluates a whole group.
-/
namespace Qlever.Aggregates
open Library.KeepBest ValueIdComparators ValueId List

inductive IdOrLiteralOrIri (Word : Type)
  | id (id : ValueId Word)
  | literalOrIri (word : Word)
  deriving DecidableEq, Repr

section Values
variable {Word : Type}

def makeUndefined : ValueId Word := .encoded .Undefined 0

def makeFromInt (value : Int) : ValueId Word := .encoded .Int (value % 2 ^ 60).toNat

def makeFromDouble (bits : Nat) : ValueId Word := .encoded .Double (bits / 2 ^ 4)

def NumericValueGetter : IdOrLiteralOrIri Word → Option NumericValue
  | .id (.encoded .Bool data) => some (.int (boolFromData data))
  | .id id => getNumeric id
  | .literalOrIri _ => none

def idOrLiteralOrIriToId (getIndexAndAddIfNotContained : Word → Nat) : IdOrLiteralOrIri Word → ValueId Word
  | .id id => id
  | .literalOrIri word => .localVocabIndex (getIndexAndAddIfNotContained word) word

def makeValueId : IdOrLiteralOrIri Word → ValueId Word
  | .id id => id
  | .literalOrIri word => .localVocabIndex 0 word

def addInt64 (first second : Int) : Option Int := if -2 ^ 63 ≤ first + second ∧ first + second < 2 ^ 63 then some (first + second) else none

def makeNumericId : Option NumericValue → ValueId Word
  | some (.int value) => makeFromInt value
  | some (.double bits) => makeFromDouble bits
  | none => makeUndefined

variable [LinearOrder Word]

def IsValidValueGetter : IdOrLiteralOrIri Word → Bool
  | .id id => id ≠ makeUndefined
  | .literalOrIri _ => true

variable (vocab : IndexVocabulary Word)

/-- `compareIdsOrStrings` in the mode `CompareByType`. -/
def compareIdsOrStrings (comparison : Comparison) : IdOrLiteralOrIri Word → IdOrLiteralOrIri Word → ComparisonResult
  | .literalOrIri first,.literalOrIri second => fromBool (comparison.holds (some (cmp first second)))
  | a,b => compareIdsByType vocab (makeValueId a) (makeValueId b) comparison

def minMaxLambdaForAllTypes (comparison : Comparison) (a b : IdOrLiteralOrIri Word) : IdOrLiteralOrIri Word :=
  if compareIdsOrStrings vocab comparison a b = .True then a else b

end Values

section Incremental
variable {Word : Type}

structure CountAggregationData where
  count_ : Int := 0

namespace CountAggregationData
variable [LinearOrder Word]

def addValue (data : CountAggregationData) (value : IdOrLiteralOrIri Word) : CountAggregationData :=
  if IsValidValueGetter value then ⟨data.count_ + 1⟩ else data

def calculateResult (data : CountAggregationData) : ValueId Word := makeFromInt data.count_

end CountAggregationData

structure ExtremumAggregationData (Word : Type) where
  currentValue_ : IdOrLiteralOrIri Word := .id makeUndefined
  firstValueSet_ : Bool := false

namespace ExtremumAggregationData

def addValue [LinearOrder Word] (vocab : IndexVocabulary Word) (comparison : Comparison) (data : ExtremumAggregationData Word)
    (value : IdOrLiteralOrIri Word) : ExtremumAggregationData Word :=
  if !data.firstValueSet_ then ⟨value,true⟩
  else { data with currentValue_ := minMaxLambdaForAllTypes vocab comparison value data.currentValue_ }

def calculateResult (localVocab : Word → Nat) (data : ExtremumAggregationData Word) : ValueId Word := idOrLiteralOrIriToId localVocab data.currentValue_

end ExtremumAggregationData

structure SumAggregationData where
  error_ : Bool := false
  intSumValid_ : Bool := true
  sum_ : Nat := 0
  intSum_ : Int := 0

namespace SumAggregationData

def addValue (addDouble : Nat → Nat → Nat) (data : SumAggregationData) (value : IdOrLiteralOrIri Word) : Option SumAggregationData :=
  match NumericValueGetter value with
  | some (.double bits) => some { data with sum_ := addDouble data.sum_ bits,intSumValid_ := false }
  | some (.int value) => do
    let intSum ← addInt64 data.intSum_ value
    return { data with sum_ := addDouble data.sum_ (NumericValue.int value).toDouble,intSum_ := intSum }
  | none => some { data with error_ := true }

def calculateResult (data : SumAggregationData) : ValueId Word :=
  if data.error_ then makeUndefined else if data.intSumValid_ then makeFromInt data.intSum_ else makeFromDouble data.sum_

end SumAggregationData

structure SampleAggregationData (Word : Type) where
  value_ : Option (IdOrLiteralOrIri Word) := none

namespace SampleAggregationData

def addValue (data : SampleAggregationData Word) (value : IdOrLiteralOrIri Word) : SampleAggregationData Word :=
  if data.value_.isNone then ⟨some value⟩ else data

def calculateResult (localVocab : Word → Nat) (data : SampleAggregationData Word) : ValueId Word :=
  match data.value_ with
  | none => makeUndefined
  | some value => idOrLiteralOrIriToId localVocab value

end SampleAggregationData

end Incremental

section Batch
variable {Word V Result : Type}

/-- `EvaluateOnChildOperand` for an aggregate that is not DISTINCT, on the values that the generator of the child yields. -/
def evaluateOnChildOperand (valueGetter : IdOrLiteralOrIri Word → V) (aggregateTwoValues : V → V → Option V) (resultForEmptyGroup : Result)
    (toResult : V → Result) : List (IdOrLiteralOrIri Word) → Option Result
  | [] => some resultForEmptyGroup
  | value :: values => do
    let result ← values.foldlM (fun result value => aggregateTwoValues result (valueGetter value)) (valueGetter value)
    return toResult result

/-- `addForSum` -/
def addForSum (addDouble : Nat → Nat → Nat) : Option NumericValue → Option NumericValue → Option (Option NumericValue)
  | some (.int first),some (.int second) => (addInt64 first second).map (fun sum => some (.int sum))
  | some first,some second => some (some (.double (addDouble first.toDouble second.toDouble)))
  | _,_ => some none

def SumExpression.evaluate (addDouble : Nat → Nat → Nat) (values : List (IdOrLiteralOrIri Word)) : Option (ValueId Word) :=
  evaluateOnChildOperand NumericValueGetter (addForSum addDouble) (makeFromInt 0) makeNumericId values

def SampleExpression.evaluate (values : List (IdOrLiteralOrIri Word)) : IdOrLiteralOrIri Word := values.head?.getD (.id makeUndefined)

variable [LinearOrder Word]

def CountExpression.evaluate (values : List (IdOrLiteralOrIri Word)) : Option (ValueId Word) :=
  evaluateOnChildOperand (fun value => if IsValidValueGetter value then 1 else 0) (fun first second : Int => some (first + second)) (makeFromInt 0)
    makeFromInt values

/-- `MinExpression` and `MaxExpression`. -/
def ExtremumExpression.evaluate (vocab : IndexVocabulary Word) (comparison : Comparison) (values : List (IdOrLiteralOrIri Word)) :
    Option (IdOrLiteralOrIri Word) :=
  evaluateOnChildOperand id (fun first second => some (minMaxLambdaForAllTypes vocab comparison first second)) (.id makeUndefined) id values

end Batch

section Count
variable {Word V Result : Type}

theorem evaluateOnChildOperand_cons (valueGetter : IdOrLiteralOrIri Word → V) (aggregateTwoValues : V → V → V) (resultForEmptyGroup : Result)
    (toResult : V → Result) (value : IdOrLiteralOrIri Word) (values : List (IdOrLiteralOrIri Word)) :
    evaluateOnChildOperand valueGetter (fun first second => some (aggregateTwoValues first second)) resultForEmptyGroup toResult (value :: values) =
      some (toResult (values.foldl (fun result value => aggregateTwoValues result (valueGetter value)) (valueGetter value))) := by
  have fold : ∀ start,values.foldlM (fun result value => some (aggregateTwoValues result (valueGetter value))) start =
      some (values.foldl (fun result value => aggregateTwoValues result (valueGetter value)) start) := by
    induction values with
    | nil => exact fun start => rfl
    | cons next values ih => exact fun start => ih _
  rw [evaluateOnChildOperand,fold]
  rfl

variable [LinearOrder Word]

theorem count_addValue (data : CountAggregationData) (value : IdOrLiteralOrIri Word) :
    (data.addValue value).count_ = data.count_ + if IsValidValueGetter value then 1 else 0 := by
  rw [CountAggregationData.addValue]
  split
  next => rfl
  next => exact (add_zero _).symm

theorem count_foldl (values : List (IdOrLiteralOrIri Word)) (data : CountAggregationData) :
    (values.foldl CountAggregationData.addValue data).count_ =
      values.foldl (fun result value => result + if IsValidValueGetter value then 1 else 0) data.count_ := by
  induction values generalizing data with
  | nil => rfl
  | cons value values ih => rw [foldl_cons,ih,count_addValue,foldl_cons]

theorem count_agrees {values : List (IdOrLiteralOrIri Word)} (nonempty : values ≠ []) :
    CountExpression.evaluate values = some ((values.foldl CountAggregationData.addValue {}).calculateResult) := by
  cases values with
  | nil => exact absurd rfl nonempty
  | cons value values =>
    rw [CountExpression.evaluate,evaluateOnChildOperand_cons,CountAggregationData.calculateResult,count_foldl,foldl_cons,zero_add]

end Count

section Extremum
variable {Word : Type} [LinearOrder Word] (vocab : IndexVocabulary Word) (comparison : Comparison)

def Better (first second : IdOrLiteralOrIri Word) : Prop := compareIdsOrStrings vocab comparison first second = .True

instance : DecidableRel (Better vocab comparison) := fun first second =>
  inferInstanceAs (Decidable (compareIdsOrStrings vocab comparison first second = .True))

theorem extremum_foldl (value : IdOrLiteralOrIri Word) (values : List (IdOrLiteralOrIri Word)) :
    values.foldl (ExtremumAggregationData.addValue vocab comparison) ⟨value,true⟩ = ⟨keepFirst (Better vocab comparison) value values,true⟩ := by
  induction values generalizing value with
  | nil => rfl
  | cons next values ih =>
    rw [foldl_cons,keepFirst,foldl_cons]
    exact ih _

theorem extremum_calculateResult (localVocab : Word → Nat) (value : IdOrLiteralOrIri Word) (values : List (IdOrLiteralOrIri Word)) :
    ((value :: values).foldl (ExtremumAggregationData.addValue vocab comparison) {}).calculateResult localVocab =
      idOrLiteralOrIriToId localVocab (keepFirst (Better vocab comparison) value values) := by
  have first : ExtremumAggregationData.addValue vocab comparison {} value = ⟨value,true⟩ := rfl
  rw [foldl_cons,first,extremum_foldl,ExtremumAggregationData.calculateResult]

theorem extremum_evaluate (value : IdOrLiteralOrIri Word) (values : List (IdOrLiteralOrIri Word)) :
    ExtremumExpression.evaluate vocab comparison (value :: values) = some (keepLast (Better vocab comparison) value values) := by
  rw [ExtremumExpression.evaluate,evaluateOnChildOperand_cons]
  rfl

end Extremum

section Sum
variable {Word : Type} (addDouble : Nat → Nat → Nat)

def integerOf (value : IdOrLiteralOrIri Word) : Option Int :=
  match NumericValueGetter value with
  | some (.int i) => some i
  | _ => none

def integersOf (values : List (IdOrLiteralOrIri Word)) : List Int := values.filterMap integerOf

def Fits64 (sum : Int) : Prop := -2 ^ 63 ≤ sum ∧ sum < 2 ^ 63

theorem addInt64_eq {first second : Int} (fits : Fits64 (first + second)) : addInt64 first second = some (first + second) := if_pos fits

theorem sum_integersOf_single {value : IdOrLiteralOrIri Word} {i : Int} (isInt : NumericValueGetter value = some (.int i)) :
    (integersOf [value]).sum = i := by
  have isInteger : integerOf value = some i := by rw [integerOf,isInt]
  rw [integersOf,filterMap_cons_some isInteger,filterMap_nil,sum_singleton]

def NoOverflow (values : List (IdOrLiteralOrIri Word)) : Prop := ∀ before,before <+: values → Fits64 (integersOf before).sum

def NoDoubles (values : List (IdOrLiteralOrIri Word)) : Prop := ∀ value ∈ values,∀ bits,NumericValueGetter value ≠ some (.double bits)

structure SameSum (data : SumAggregationData) (result : Option NumericValue) : Prop where
  valid : data.intSumValid_ = true
  error : data.error_ = true ↔ result = none
  sum : result ≠ none → result = some (.int data.intSum_)

section
variable {data : SumAggregationData} {result : Option NumericValue} (same : SameSum data result)
include same

theorem SameSum.calculateResult :
    (data.calculateResult : ValueId Word) = makeNumericId result := by
  rw [SumAggregationData.calculateResult]
  split
  next error => rw [same.error.mp error,makeNumericId]
  next noError =>
    rw [if_pos same.valid,same.sum (fun noResult => noError (same.error.mpr noResult)),makeNumericId]

theorem SameSum.step {value : IdOrLiteralOrIri Word}
    (noDouble : ∀ bits,NumericValueGetter value ≠ some (.double bits)) (fits : Fits64 (data.intSum_ + (integersOf [value]).sum)) :
    ∃ data' result',data.addValue addDouble value = some data' ∧ addForSum addDouble result (NumericValueGetter value) = some result' ∧
      data'.intSum_ = data.intSum_ + (integersOf [value]).sum ∧ SameSum data' result' := by
  unfold SumAggregationData.addValue
  cases number : NumericValueGetter value with
  | none =>
    have noInteger : (integersOf [value]).sum = 0 := by
      rw [integersOf,filterMap_cons_none (by rw [integerOf,number]),filterMap_nil,sum_nil]
    refine ⟨_,none,rfl,?_,by rw [noInteger,add_zero],⟨same.valid,by simp,fun present => absurd rfl present⟩⟩
    cases result with
    | none => rfl
    | some number => cases number <;> rfl
  | some number' =>
    cases number' with
    | double bits => exact absurd number (noDouble bits)
    | int i =>
      rw [sum_integersOf_single number] at fits ⊢
      simp only [addInt64_eq fits,Option.bind_eq_bind,Option.bind_some,Option.pure_def]
      cases result with
      | none => exact ⟨_,none,rfl,rfl,rfl,⟨same.valid,same.error,fun present => absurd rfl present⟩⟩
      | some before =>
        have isInt := same.sum (Option.some_ne_none before)
        have noError := same.error
        rw [isInt] at noError
        rw [isInt,addForSum,addInt64_eq fits]
        exact ⟨_,_,rfl,rfl,rfl,⟨same.valid,by simpa using noError,fun _ => rfl⟩⟩

theorem SameSum.run {values : List (IdOrLiteralOrIri Word)}
    (noDoubles : NoDoubles values) (fits : ∀ before,before <+: values → Fits64 (data.intSum_ + (integersOf before).sum)) :
    ∃ data' result',values.foldlM (SumAggregationData.addValue addDouble) data = some data' ∧
      values.foldlM (fun result value => addForSum addDouble result (NumericValueGetter value)) result = some result' ∧ SameSum data' result' := by
  induction values generalizing data result with
  | nil => exact ⟨data,result,rfl,rfl,same⟩
  | cons value values ih =>
    obtain ⟨noDouble,noOthers⟩ := forall_mem_cons.mp noDoubles
    obtain ⟨data',result',added,summed,intSum,same'⟩ := same.step addDouble noDouble (fits [value] ⟨values,rfl⟩)
    have fits' : ∀ before,before <+: values → Fits64 (data'.intSum_ + (integersOf before).sum) := by
      intro before isPrefix
      have fitsMore := fits (value :: before) (cons_prefix_cons.mpr ⟨rfl,isPrefix⟩)
      rw [← singleton_append,integersOf,filterMap_append,sum_append,← add_assoc] at fitsMore
      rw [intSum]
      exact fitsMore
    rw [foldlM_cons,foldlM_cons,added,summed]
    exact ih same' noOthers fits'

end

theorem sum_agrees {values : List (IdOrLiteralOrIri Word)} (nonempty : values ≠ []) (noDoubles : NoDoubles values) (noOverflow : NoOverflow values) :
    ∃ data,values.foldlM (SumAggregationData.addValue addDouble) {} = some data ∧
      SumExpression.evaluate addDouble values = some (data.calculateResult : ValueId Word) := by
  cases values with
  | nil => exact absurd rfl nonempty
  | cons value values =>
    -- before the first value the sum is zero
    have start : SameSum {} (some (.int 0)) := ⟨rfl,by simp,fun _ => rfl⟩
    obtain ⟨data,result,added,summed,same⟩ := start.run addDouble noDoubles (fun before isPrefix => by simpa using noOverflow before isPrefix)
    obtain ⟨noDouble,-⟩ := forall_mem_cons.mp noDoubles
    have first : addForSum addDouble (some (.int 0)) (NumericValueGetter value) = some (NumericValueGetter value) := by
      have fits := noOverflow [value] ⟨values,rfl⟩
      cases number : NumericValueGetter value with
      | none => rfl
      | some number' =>
        cases number' with
        | double bits => exact absurd number (noDouble bits)
        | int i =>
          rw [sum_integersOf_single number] at fits
          rw [addForSum,addInt64_eq (by rwa [zero_add]),zero_add]
          rfl
    rw [foldlM_cons,first] at summed
    refine ⟨data,added,?_⟩
    rw [SumExpression.evaluate,evaluateOnChildOperand]
    rw [show values.foldlM (fun result value => addForSum addDouble result (NumericValueGetter value)) (NumericValueGetter value) = some result from summed,
      same.calculateResult]
    rfl

end Sum

section Sample
variable {Word : Type}

theorem sample_agrees
    (localVocab : Word → Nat) {values : List (IdOrLiteralOrIri Word)} (nonempty : values ≠ []) : idOrLiteralOrIriToId localVocab (SampleExpression.evaluate values) =
    (values.foldl SampleAggregationData.addValue {}).calculateResult localVocab := by
  cases values with
  | nil => exact absurd rfl nonempty
  | cons value values =>
    have stays : values.foldl SampleAggregationData.addValue ⟨some value⟩ = ⟨some value⟩ := by
      induction values with
      | nil => rfl
      | cons next values ih => exact ih (cons_ne_nil _ _)
    have first : SampleAggregationData.addValue {} value = ⟨some value⟩ := rfl
    rw [foldl_cons,first,stays]
    rfl

end Sample

section Comparison
variable {Word : Type} [LinearOrder Word] {vocab : IndexVocabulary Word}

theorem compareIdsOrStrings_eq (vocab : IndexVocabulary Word) (comparison : Comparison) (a b : IdOrLiteralOrIri Word) :
    compareIdsOrStrings vocab comparison a b = compareIdsByType vocab (makeValueId a) (makeValueId b) comparison := by
  cases a <;> cases b <;> rfl

section
variable {a b : IdOrLiteralOrIri Word} (validA : Valid vocab (makeValueId a)) (validB : Valid vocab (makeValueId b))
include validA validB

theorem better_lt :
    Better vocab .LT a b ↔ byType vocab (makeValueId a) (makeValueId b) = .lt := by
  rw [Better,compareIdsOrStrings_eq,compareIdsByType,orderByType_eq validA validB]
  cases byType vocab (makeValueId a) (makeValueId b) <;> simp [Comparison.holds,fromBool]

theorem better_gt :
    Better vocab .GT a b ↔ Better vocab .LT b a := by
  rw [better_lt validB validA,byType_swap validA validB,Better,compareIdsOrStrings_eq,compareIdsByType,orderByType_eq validA validB]
  cases byType vocab (makeValueId a) (makeValueId b) <;> simp [Comparison.holds,fromBool]

end

def idsOf (values : List (IdOrLiteralOrIri Word)) : Set (ValueId Word) := {id | ∃ value ∈ values,id = makeValueId value}

section
variable {values : List (IdOrLiteralOrIri Word)} (valid : ∀ value ∈ values,Valid vocab (makeValueId value))
include valid

theorem ordersValues_lt (numbers : NumbersKeepOrder (idsOf values)) (words : KeepsOrderOn vocab (idsOf values)) : OrdersValues (Better vocab .LT) values where
  asymm x isX y isY := by
    rw [better_lt (valid x isX) (valid y isY),better_lt (valid y isY) (valid x isX),byType_swap (valid x isX) (valid y isY)]
    intro less
    rw [less]
    decide
  notBetter x isX y isY z isZ := by
    have notGreater : ∀ {a b : IdOrLiteralOrIri Word},a ∈ values → b ∈ values →
        (¬ Better vocab .LT b a ↔ byType vocab (makeValueId a) (makeValueId b) ≠ .gt) := by
      intro a b isA isB
      rw [better_lt (valid b isB) (valid a isA),byType_swap (valid a isA) (valid b isB)]
      cases byType vocab (makeValueId a) (makeValueId b) <;> decide
    rw [notGreater isX isY,notGreater isY isZ,notGreater isX isZ]
    exact byType_trans numbers words (valid x isX) (valid y isY) (valid z isZ) ⟨x,isX,rfl⟩ ⟨y,isY,rfl⟩ ⟨z,isZ,rfl⟩

theorem ordersValues_gt (orders : OrdersValues (Better vocab .LT) values) : OrdersValues (Better vocab .GT) values where
  asymm x isX y isY := by
    rw [better_gt (valid x isX) (valid y isY),better_gt (valid y isY) (valid x isX)]
    exact orders.asymm y isY x isX
  notBetter x isX y isY z isZ := by
    rw [better_gt (valid y isY) (valid x isX),better_gt (valid z isZ) (valid y isY),better_gt (valid z isZ) (valid x isX)]
    exact fun first second => orders.notBetter z isZ y isY x isX second first

end

end Comparison

section Claim
variable {Word : Type} [LinearOrder Word] (vocab : IndexVocabulary Word) (localVocab : Word → Nat)

def SameBest (comparison : Comparison) (values : List (IdOrLiteralOrIri Word)) : Prop :=
  ∃ first last,IsFirstBest (Better vocab comparison) values first ∧ IsLastBest (Better vocab comparison) values last ∧
    idOrLiteralOrIriToId localVocab first = idOrLiteralOrIriToId localVocab last

structure AggregatesAgree (addDouble : Nat → Nat → Nat) (values : List (IdOrLiteralOrIri Word)) : Prop where
  count : CountExpression.evaluate values = some ((values.foldl CountAggregationData.addValue {}).calculateResult)
  sum : NoDoubles values → NoOverflow values → ∃ data,values.foldlM (SumAggregationData.addValue addDouble) {} = some data ∧
    SumExpression.evaluate addDouble values = some (data.calculateResult : ValueId Word)
  min : (ExtremumExpression.evaluate vocab .LT values).map (idOrLiteralOrIriToId localVocab) =
    some ((values.foldl (ExtremumAggregationData.addValue vocab .LT) {}).calculateResult localVocab)
  max : (ExtremumExpression.evaluate vocab .GT values).map (idOrLiteralOrIriToId localVocab) =
    some ((values.foldl (ExtremumAggregationData.addValue vocab .GT) {}).calculateResult localVocab)
  sample : idOrLiteralOrIriToId localVocab (SampleExpression.evaluate values) =
    (values.foldl SampleAggregationData.addValue {}).calculateResult localVocab

theorem extremum_agrees_iff (comparison : Comparison) (value : IdOrLiteralOrIri Word) (values : List (IdOrLiteralOrIri Word)) :
    (ExtremumExpression.evaluate vocab comparison (value :: values)).map (idOrLiteralOrIriToId localVocab) =
        some (((value :: values).foldl (ExtremumAggregationData.addValue vocab comparison) {}).calculateResult localVocab) ↔
      idOrLiteralOrIriToId localVocab (keepFirst (Better vocab comparison) value values) =
        idOrLiteralOrIriToId localVocab (keepLast (Better vocab comparison) value values) := by
  rw [extremum_evaluate,extremum_calculateResult,Option.map_some,Option.some.injEq,eq_comm]

section
variable {comparison : Comparison} {values : List (IdOrLiteralOrIri Word)} (nonempty : values ≠ [])
include nonempty

theorem extremum_agrees
    (same : SameBest vocab localVocab comparison values) : (ExtremumExpression.evaluate vocab comparison values).map (idOrLiteralOrIriToId localVocab) =
      some ((values.foldl (ExtremumAggregationData.addValue vocab comparison) {}).calculateResult localVocab) := by
  obtain ⟨first,last,isFirst,isLast,sameId⟩ := same
  cases values with
  | nil => exact absurd rfl nonempty
  | cons value values => rwa [extremum_agrees_iff,keepFirst_eq isFirst,keepLast_eq isLast]

theorem sameBest_of_agrees (orders : OrdersValues (Better vocab comparison) values)
    (agrees : (ExtremumExpression.evaluate vocab comparison values).map (idOrLiteralOrIriToId localVocab) =
      some ((values.foldl (ExtremumAggregationData.addValue vocab comparison) {}).calculateResult localVocab)) :
    SameBest vocab localVocab comparison values := by
  cases values with
  | nil => exact absurd rfl nonempty
  | cons value values =>
    rw [extremum_agrees_iff] at agrees
    exact ⟨_,_,isFirstBest_keepFirst orders,isLastBest_keepLast orders,agrees⟩

end

/-- The versions agree if the best values at both ends of the list have the same ID, and, when the values are ordered consistently, only then. -/
theorem aggregatesAgree_iff (addDouble : Nat → Nat → Nat) {values : List (IdOrLiteralOrIri Word)} (nonempty : values ≠ [])
    (valid : ∀ value ∈ values,Valid vocab (makeValueId value)) :
    (SameBest vocab localVocab .LT values ∧ SameBest vocab localVocab .GT values → AggregatesAgree vocab localVocab addDouble values) ∧
      (NumbersKeepOrder (idsOf values) ∧ KeepsOrderOn vocab (idsOf values) →
        (AggregatesAgree vocab localVocab addDouble values ↔ SameBest vocab localVocab .LT values ∧ SameBest vocab localVocab .GT values)) := by
  have enough : SameBest vocab localVocab .LT values ∧ SameBest vocab localVocab .GT values → AggregatesAgree vocab localVocab addDouble values := by
    rintro ⟨sameMin,sameMax⟩
    exact ⟨count_agrees nonempty,sum_agrees addDouble nonempty,extremum_agrees vocab localVocab nonempty sameMin,
      extremum_agrees vocab localVocab nonempty sameMax,sample_agrees localVocab nonempty⟩
  refine ⟨enough,?_⟩
  rintro ⟨numbers,words⟩
  have orders := ordersValues_lt valid numbers words
  exact ⟨fun agree => ⟨sameBest_of_agrees vocab localVocab nonempty orders agree.min,
    sameBest_of_agrees vocab localVocab nonempty (ordersValues_gt valid orders) agree.max⟩,enough⟩

end Claim

section Examples

/-- Two integers in both orders of the comparison. -/
theorem aggregatesAgree_twoIntegers : AggregatesAgree noWords id (fun _ _ => 0) [.id (.encoded .Int 1),.id (.encoded .Int 2)] := by
  refine (aggregatesAgree_iff noWords id (fun _ _ => 0) (cons_ne_nil _ _) ?_).1 ⟨?_,?_⟩
  · intro value isValue
    simp only [mem_cons,not_mem_nil,or_false] at isValue
    rcases isValue with rfl | rfl <;> exact ⟨trivial,by unfold FitsData dataOf; decide⟩
  · exact ⟨_,_,⟨[],_,rfl,by decide +kernel,by decide +kernel⟩,⟨[],_,rfl,by decide +kernel,by decide +kernel⟩,rfl⟩
  · exact ⟨_,_,⟨[_],[],rfl,by decide +kernel,by decide +kernel⟩,⟨[_],[],rfl,by decide +kernel,by decide +kernel⟩,rfl⟩

/-- The minimum of the integer 1 and the double 1 is the first one in the hash map, and the last one otherwise. -/
theorem aggregatesAgree_fails : ¬ AggregatesAgree noWords id (fun _ _ => 0) [.id (.encoded .Int 1),.id (.encoded .Double (0x3FF * 2 ^ 48))] := by
  intro agree
  have min := agree.min
  revert min
  decide +kernel

end Examples

end Qlever.Aggregates
