import Qlever.FindUndefRanges
import Qlever.Library.BinarySearch

/-! The dispatching function `findSmallerUndefRanges` of `FindUndefRanges.h`, which chooses one of three functions by the UNDEF columns of the
row. A binary search that compares with an invalid id, and a shift by too many bits, have no result.
-/
namespace Qlever.SmallerUndefRanges
open ZipperJoin FindUndefRanges Library

/-- The ids in the columns of a row. Two ids are compared by their values. `compareWithNext` compares an id with the one that
`fromBits(getBits() + 1)` makes of another id. -/
structure IdColumns (α κ : Type) where
  value : α → κ
  makeUndefined : α
  compareWithNext : α → α → Option Ordering

variable {α κ : Type} [LinearOrder κ] [OrderBot κ] (ids : IdColumns α κ)

def IdColumns.isUndefined (id : α) : Bool := ids.value id = ⊥

def IdColumns.values (row : List α) : List κ := row.map ids.value

def IdColumns.less (row other : List α) : Bool := ids.values row < ids.values other

def IdColumns.compareRows (row other : List α) : Ordering := if ids.less row other then .lt else if ids.less other row then .gt else .eq

/-- `1 << count` in a type with the given number of bits. -/
def shiftedOne (bits count : Nat) : Option Nat := if count < bits then some (2 ^ count) else none

/-- Both lambdas `getIthMask`. Columns that are not defined are kept. -/
def getIthMask (row : List α) (numDefinedColumns i : Nat) : List α :=
  row.mapIdx (fun colIdx id => if colIdx < numDefinedColumns && !i.testBit (numDefinedColumns - colIdx - 1) then ids.makeUndefined else id)

def iteratorRange (range : List (Iter (List α))) (first last : Nat) : List (Iter (List α)) := (range.drop first).take (last - first)

def findSmallerUndefRangesForRowsWithoutUndef (row : List α) (range : List (Iter (List α))) : Option (List (Iter (List α))) := do
  let upperBound ← shiftedOne 64 row.length
  let ranges ← (List.range (upperBound - 1)).mapM (fun i => do
    let mask := getIthMask ids row row.length i
    let (first,last) ← equalRange (fun it : Iter (List α) => ids.less it.row mask) (fun it => ids.less mask it.row) range
    return iteratorRange range first last)
  return ranges.flatten

/-- Lexicographical comparison of an element with a row whose column `column` is replaced by the next id. -/
def compareRowWithNext : List α → List α → Nat → Option Ordering
  | id::element,other::row,0 =>
    match ids.compareWithNext id other with
    | none => none
    | some .eq => some (ids.compareRows element row)
    | some order => some order
  | id::element,other::row,column + 1 =>
    match cmp (ids.value id) (ids.value other) with
    | .eq => compareRowWithNext element row column
    | order => some order
  | element,row,_ => some (ids.compareRows element row)

def lowerBound (less : Iter (List α) → Option Bool) (range : List (Iter (List α))) : Option Nat :=
  bisect (fun i => range[i]? >>= less) 0 range.length

def findSmallerUndefRangesForRowsWithUndefInLastColumns (row : List α) (numLastUndefined : Nat) (range : List (Iter (List α))) :
    Option (List (Iter (List α)) × Bool) := do
  let numDefinedColumns := row.length - numLastUndefined
  let upperBound ← shiftedOne 32 numDefinedColumns
  let ranges ← (List.range (if numLastUndefined = 0 then 0 else upperBound - 1)).mapM (fun i => do
    let mask := getIthMask ids row numDefinedColumns i
    let begOfUndef ← lowerBound (fun it => some (ids.less it.row mask)) range
    let endOfUndef ← lowerBound (fun it => (compareRowWithNext ids it.row mask (numDefinedColumns - 1)).map (fun order => order = .lt)) range
    return iteratorRange range begOfUndef endOfUndef)
  return (ranges.flatten,!ranges.isEmpty)

/-- `findSmallerUndefRangesArbitrary` for rows of ids. -/
def findSmallerUndefRangesForRowsOfIds (row : List α) (range : List (Iter (List α))) : List (Iter (List α)) × Bool :=
  let found := (range.takeWhile (fun it => ids.less it.row row)).filter (fun it => compatible (ids.values row) (ids.values it.row))
  (found,!found.isEmpty)

/-- The iterators that are yielded, and whether `resultMightBeUnsorted` is set. -/
def findSmallerUndefRanges (row : List α) (range : List (Iter (List α))) : Option (List (Iter (List α)) × Bool) :=
  let numLastUndefined := (row.reverse.takeWhile ids.isUndefined).length
  if (row.reverse.drop numLastUndefined).any ids.isUndefined then some (findSmallerUndefRangesForRowsOfIds ids row range)
  else if numLastUndefined = 0 then (findSmallerUndefRangesForRowsWithoutUndef ids row range).map (fun found => (found,false))
  else findSmallerUndefRangesForRowsWithUndefInLastColumns ids row numLastUndefined range

end Qlever.SmallerUndefRanges
