import Qlever.ValueId
import Qlever.Library.BinarySearch
import Qlever.Library.Binary64
import Qlever.Library.Intervals

/-! The comparisons of `ValueIdComparators.h`: `compareIds` compares the values of two IDs, and `getRangesForId` finds all IDs of a sorted
range for which a comparison holds by binary search. The second one relies on the order of the bits.
-/
namespace Qlever.ValueIdComparators
open Qlever.Library

inductive Comparison
  | LT
  | LE
  | EQ
  | NE
  | GE
  | GT
  deriving DecidableEq, Repr

inductive ComparisonResult
  | False
  | True
  | Undef
  deriving DecidableEq, Repr

def fromBool (b : Bool) : ComparisonResult := if b then .True else .False

/-- The comparators of C++ on two values in the given order. A NaN has no order, and is only `not equal`. -/
def Comparison.holds : Comparison → Option Ordering → Bool
  | .LT,order => order == some .lt
  | .LE,order => order == some .lt || order == some .eq
  | .EQ,order => order == some .eq
  | .NE,order => order != some .eq
  | .GE,order => order == some .gt || order == some .eq
  | .GT,order => order == some .gt

inductive Datatype
  | encoded (datatype : EncodedType)
  | VocabIndex
  | LocalVocabIndex
  | BlankNodeIndex
  deriving DecidableEq, Repr

def Datatype.toNat : Datatype → Nat
  | encoded datatype => datatype.toNat
  | VocabIndex => 4
  | LocalVocabIndex => 5
  | BlankNodeIndex => 10

/-- The members of `stringTypes_`. -/
def Datatype.isString (datatype : Datatype) : Bool := datatype = VocabIndex || datatype = LocalVocabIndex

def Datatype.isNumeric (datatype : Datatype) : Bool := datatype = encoded .Double || datatype = encoded .Int

/-- An `int64_t` or the bits of a `double`. -/
inductive NumericValue
  | int (value : Int)
  | double (bits : Nat)
  deriving DecidableEq, Repr

namespace NumericValue

def toDouble : NumericValue → Nat
  | int value => Binary64.ofInt value
  | double bits => bits

def isNan : NumericValue → Bool
  | int _ => false
  | double bits => Binary64.isNan bits

def compare : NumericValue → NumericValue → Option Ordering
  | int first,int second => some (cmp first second)
  | first,second => Binary64.compare first.toDouble second.toDouble

end NumericValue

section Values
variable {Word : Type}

def getDatatype : ValueId Word → Datatype
  | .encoded datatype _ => .encoded datatype
  | .vocabIndex _ => .VocabIndex
  | .localVocabIndex _ _ => .LocalVocabIndex
  | .blankNodeIndex _ => .BlankNodeIndex

def fromNBit (data : Nat) : Int := if data < 2 ^ 59 then data else (data : Int) - 2 ^ 60

def doubleFromData (data : Nat) : Nat := data * 2 ^ 4

def boolFromData (data : Nat) : Nat := data % 2

def getNumeric : ValueId Word → Option NumericValue
  | .encoded .Int data => some (.int (fromNBit data))
  | .encoded .Double data => some (.double (doubleFromData data))
  | _ => none

def areTypesCompatible (typeA typeB : Datatype) : Bool :=
  typeA != .encoded .Undefined && (typeA = typeB || (typeA.isNumeric && typeB.isNumeric) || (typeA.isString && typeB.isString))

variable [LinearOrder Word] (vocab : Vocabulary Word)

/-- The order that `compareIdsImpl` passes to the comparator, for IDs of compatible types. -/
def orderOfValues (a b : ValueId Word) : Option Ordering :=
  match a,b with
  | .encoded .Bool first,.encoded .Bool second => some (cmp (boolFromData first) (boolFromData second))
  | a,b =>
    match getNumeric a,getNumeric b with
    | some first,some second => first.compare second
    | _,_ => some (a.compare vocab b)

/-- `compareIds` in the mode `AlwaysUndef`. -/
def compareIds (a b : ValueId Word) (comparison : Comparison) : ComparisonResult :=
  if areTypesCompatible (getDatatype a) (getDatatype b) then fromBool (comparison.holds (orderOfValues vocab a b)) else .Undef

end Values

section Ranges
variable {Word : Type}

/-- The loop of `std::lower_bound` and `std::upper_bound` on a part of the IDs. -/
def search (goRight : ValueId Word → Bool) (ids : List (ValueId Word)) (first last : Nat) : Option Nat :=
  bisect (fun i => ids[i]?.map goRight) first (last - first)

/-- `std::equal_range`, where `less` compares an ID with the value and `greater` the value with an ID. -/
def equalRange (less greater : ValueId Word → Bool) (ids : List (ValueId Word)) (first last : Nat) : Option Interval := do
  return (← search less ids first last,← search (fun id => !greater id) ids first last)

def comparatorForVocabTypes (d1 d2 : Datatype) : Bool :=
  if d1.isString && d2.isString then false else d1.toNat < d2.toNat

def getRangeForDatatype (ids : List (ValueId Word)) (datatype : Datatype) : Option Interval :=
  equalRange (fun id => comparatorForVocabTypes (getDatatype id) datatype) (fun id => comparatorForVocabTypes datatype (getDatatype id)) ids 0 ids.length

structure RangeFilter where
  comparison : Comparison
  result : List Interval

namespace RangeFilter

def addImpl (acceptedComparisons : List Comparison) (filter : RangeFilter) (first last : Nat) : RangeFilter :=
  if acceptedComparisons.contains filter.comparison then { filter with result := filter.result ++ [(first,last)] } else filter

def addEqual : RangeFilter → Nat → Nat → RangeFilter := addImpl [.LE,.EQ,.GE]

def addSmaller : RangeFilter → Nat → Nat → RangeFilter := addImpl [.LT,.LE,.NE]

def addGreater : RangeFilter → Nat → Nat → RangeFilter := addImpl [.GE,.GT,.NE]

def addNotEqual : RangeFilter → Nat → Nat → RangeFilter := addImpl [.NE]

end RangeFilter

def getDouble (id : ValueId Word) : NumericValue :=
  match id with
  | .encoded _ data => .double (doubleFromData data)
  | _ => .double 0

def getInt (id : ValueId Word) : NumericValue :=
  match id with
  | .encoded _ data => .int (fromNBit data)
  | _ => .int 0

def doubleIdIsNegative (id : ValueId Word) : Bool := Binary64.isNegative (getDouble id).toDouble

def isLess (first second : NumericValue) : Bool := first.compare second == some .lt

def getRangesForDouble (ids : List (ValueId Word)) (value : NumericValue) (comparison : Comparison) : Option (List Interval) := do
  let (first,last) ← getRangeForDatatype ids (.encoded .Double)
  if value.isNan then return if comparison = .NE then [(first,last)] else []
  let beginOfNans ← search (fun id => !doubleIdIsNegative id && !(getDouble id).isNan) ids first last
  let beginOfNegatives ← search (fun id => !doubleIdIsNegative id) ids first last
  guard (beginOfNegatives ≥ beginOfNans)
  let filter : RangeFilter := RangeFilter.addNotEqual ⟨comparison,[]⟩ beginOfNans beginOfNegatives
  if isLess (.int 0) value then
    let (eqBegin,eqEnd) ← equalRange (fun id => isLess (getDouble id) value) (fun id => isLess value (getDouble id)) ids first beginOfNans
    return (((filter.addSmaller first eqBegin).addEqual eqBegin eqEnd).addGreater eqEnd beginOfNans).addSmaller beginOfNegatives last |>.result
  else if isLess value (.int 0) then
    let (eqBegin,eqEnd) ← equalRange (fun id => isLess value (getDouble id)) (fun id => isLess (getDouble id) value) ids beginOfNegatives last
    return (((filter.addGreater first beginOfNans).addGreater beginOfNegatives eqBegin).addEqual eqBegin eqEnd).addSmaller eqEnd last |>.result
  else
    let positiveEnd ← search (fun id => !isLess (.double 0) (getDouble id)) ids first beginOfNegatives
    let negativeEnd ← search (fun id => !isLess (getDouble id) (.double 0)) ids beginOfNegatives last
    return (((filter.addEqual first positiveEnd).addGreater positiveEnd beginOfNans).addEqual beginOfNegatives negativeEnd).addSmaller negativeEnd last
      |>.result

def getRangesForInt (ids : List (ValueId Word)) (value : NumericValue) (comparison : Comparison) : Option (List Interval) := do
  let (first,last) ← getRangeForDatatype ids (.encoded .Int)
  if value.isNan then return if comparison = .NE then [(first,last)] else []
  let firstNegative ← search (fun id => !isLess (getInt id) (.int 0)) ids first last
  let filter : RangeFilter := ⟨comparison,[]⟩
  let less := fun id => isLess (getInt id) value
  let greater := fun id => isLess value (getInt id)
  if !isLess value (.int 0) then
    let (eqBegin,eqEnd) ← equalRange less greater ids first firstNegative
    return (((filter.addSmaller first eqBegin).addEqual eqBegin eqEnd).addGreater eqEnd firstNegative).addSmaller firstNegative last |>.result
  else
    let (eqBegin,eqEnd) ← equalRange less greater ids firstNegative last
    return (((filter.addGreater first firstNegative).addSmaller firstNegative eqBegin).addEqual eqBegin eqEnd).addGreater eqEnd last |>.result

def getRangesForIntsAndDoubles (ids : List (ValueId Word)) (value : NumericValue) (comparison : Comparison) : Option (List Interval) := do
  return (← getRangesForDouble ids value comparison) ++ (← getRangesForInt ids value comparison)

variable [LinearOrder Word] (vocab : Vocabulary Word)

def compareByBits (a b : ValueId Word) : Bool := a.compare vocab b == .lt

def getRangesForIndexTypes (ids : List (ValueId Word)) (valueId : ValueId Word) (comparison : Comparison) : Option (List Interval) := do
  let (beginType,endType) ← getRangeForDatatype ids (getDatatype valueId)
  let (eqBegin,eqEnd) ← equalRange (fun id => compareByBits vocab id valueId) (fun id => compareByBits vocab valueId id) ids beginType endType
  let filter : RangeFilter := ⟨comparison,[]⟩
  return ((filter.addSmaller beginType eqBegin).addEqual eqBegin eqEnd).addGreater eqEnd endType |>.result

/-- The order of `std::pair`. -/
def pairLe (first second : Interval) : Bool := first.1 < second.1 || (first.1 = second.1 && first.2 ≤ second.2)

def simplifyRanges (input : List Interval) ( removeEmptyRanges : Bool) : List Interval :=
  let input := if removeEmptyRanges then input.filter (fun range => range.1 ≠ range.2) else input
  mergeAllAdjacent (input.insertionSort (fun first second => pairLe first second = true))

def getRangesForId (ids : List (ValueId Word)) (valueId : ValueId Word) (comparison : Comparison) ( removeEmptyRanges : Bool) : Option (List Interval) :=
  if getDatatype valueId = .encoded .Undefined then some []
  else
    match getNumeric valueId with
    | some value => (getRangesForIntsAndDoubles ids value comparison).map (simplifyRanges · removeEmptyRanges)
    | none => (getRangesForIndexTypes vocab ids valueId comparison).map (simplifyRanges · removeEmptyRanges)

end Ranges
end Qlever.ValueIdComparators
