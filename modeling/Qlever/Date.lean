import Qlever.Library.BitFields
import Qlever.Library.Run

/-! The class `Date`, whose bit fields make up the lower 57 bits of a word. The year is the most significant one, so dates are ordered by their
components. A `double` is given by its value.
-/
namespace Qlever
open Library BitFields

structure DateOutOfRangeException where
  name : String
  value : Rat
  deriving DecidableEq, Repr

def checkBoundsIncludingMax (element min max : Int) (name : String) : Except DateOutOfRangeException Unit :=
  if element < min || max < element then throw ⟨name,element⟩ else return

def checkBoundsExcludingMax (element min max : Rat) (name : String) : Except DateOutOfRangeException Unit :=
  if element < min || max ≤ element then throw ⟨name,element⟩ else return

def bitWidth (value : Nat) : Nat := if value = 0 then 0 else value.log2 + 1

inductive TimeZone
  | NoTimeZone
  | TimeZoneZ
  | hours (value : Int)
  deriving DecidableEq, Repr

namespace Date

def minYear : Int := -9999
def maxYear : Int := 9999
def numBitsYear : Nat := bitWidth (maxYear - minYear).toNat

def minMonth : Int := 0
def maxMonth : Int := 12
def numBitsMonth : Nat := bitWidth maxMonth.toNat

def minDay : Int := 0
def maxDay : Int := 31
def numBitsDay : Nat := bitWidth maxDay.toNat

def minHour : Int := -1
def maxHour : Int := 23
def numBitsHour : Nat := bitWidth (maxHour - minHour).toNat

def minMinute : Int := 0
def maxMinute : Int := 59
def numBitsMinute : Nat := bitWidth maxMinute.toNat

def minSecond : Rat := 0
def maxSecond : Rat := 60
def secondMultiplier : Rat := 1024
def numBitsSecond : Nat := bitWidth ⌊maxSecond * secondMultiplier⌋.toNat

def minTimeZoneActually : Int := -23
def maxTimeZoneActually : Int := 25
def minTimeZone : Int := -23
def maxTimeZone : Int := 23
def numBitsTimeZone : Nat := bitWidth (maxTimeZoneActually - minTimeZoneActually).toNat

def numUnusedBits : Nat := 64 - numBitsYear - numBitsMonth - numBitsDay - numBitsHour - numBitsMinute - numBitsSecond - numBitsTimeZone

end Date

example : Date.numUnusedBits = 7 := by decide +kernel

open Date in
structure Date where
  timeZone_ : BitVec numBitsTimeZone
  second_ : BitVec numBitsSecond
  minute_ : BitVec numBitsMinute
  hour_ : BitVec numBitsHour
  day_ : BitVec numBitsDay
  month_ : BitVec numBitsMonth
  year_ : BitVec numBitsYear
  unusedBits_ : BitVec numUnusedBits
  deriving DecidableEq

namespace Date

structure Components where
  year : Int
  month : Int
  day : Int
  hour : Int := -1
  minute : Int := 0
  second : Rat := 0
  timeZone : TimeZone := .NoTimeZone
  deriving DecidableEq

def setYear (year : Int) (date : Date) : Except DateOutOfRangeException Date := do
  checkBoundsIncludingMax year minYear maxYear "year"
  return {date with year_ := BitVec.ofInt _ (year - minYear)}

def setMonth (month : Int) (date : Date) : Except DateOutOfRangeException Date := do
  checkBoundsIncludingMax month minMonth maxMonth "month"
  return {date with month_ := BitVec.ofInt _ month}

def setDay (day : Int) (date : Date) : Except DateOutOfRangeException Date := do
  checkBoundsIncludingMax day minDay maxDay "day"
  return {date with day_ := BitVec.ofInt _ day}

def setHour (hour : Int) (date : Date) : Except DateOutOfRangeException Date := do
  checkBoundsIncludingMax hour minHour maxHour "hour"
  return {date with hour_ := BitVec.ofInt _ (hour - minHour)}

def setMinute (minute : Int) (date : Date) : Except DateOutOfRangeException Date := do
  checkBoundsIncludingMax minute minMinute maxMinute "minute"
  return {date with minute_ := BitVec.ofInt _ minute}

/-- The product with a power of two is exact, and `round` is `std::round` because the second is not negative. -/
def setSecond (second : Rat) (date : Date) : Except DateOutOfRangeException Date := do
  checkBoundsExcludingMax second minSecond maxSecond "second"
  return {date with second_ := BitVec.ofInt _ (round (second * secondMultiplier))}

def timeZoneAsInternalInt : TimeZone → Except DateOutOfRangeException Int
  | .NoTimeZone => return 0
  | .TimeZoneZ => return 1
  | .hours value => do
    checkBoundsIncludingMax value minTimeZone maxTimeZone "timeZone"
    return if value < 0 then value else value + 2

def setTimeZone (timeZone : TimeZone) (date : Date) : Except DateOutOfRangeException Date := do
  let actualTimeZone ← timeZoneAsInternalInt timeZone
  return {date with timeZone_ := BitVec.ofInt _ (actualTimeZone - minTimeZoneActually)}

def initial : Date := ⟨0,0,0,0,1,1,0,0⟩

def make (c : Components) : Except DateOutOfRangeException Date := do
  let date ← setYear c.year initial
  let date ← setMonth c.month date
  let date ← setDay c.day date
  let date ← setHour c.hour date
  let date ← setMinute c.minute date
  let date ← setSecond c.second date
  setTimeZone c.timeZone date

def widths : List Nat := [numUnusedBits,numBitsYear,numBitsMonth,numBitsDay,numBitsHour,numBitsMinute,numBitsSecond,numBitsTimeZone]

def fields (date : Date) : List Nat :=
  [date.unusedBits_.toNat,date.year_.toNat,date.month_.toNat,date.day_.toNat,date.hour_.toNat,date.minute_.toNat,date.second_.toNat,
    date.timeZone_.toNat]

def toBits (date : Date) : Nat := pack widths date.fields

def fromBits (bits : Nat) : Date where
  timeZone_ := BitVec.ofNat _ bits
  second_ := BitVec.ofNat _ (bits >>> 6)
  minute_ := BitVec.ofNat _ (bits >>> 22)
  hour_ := BitVec.ofNat _ (bits >>> 28)
  day_ := BitVec.ofNat _ (bits >>> 33)
  month_ := BitVec.ofNat _ (bits >>> 38)
  year_ := BitVec.ofNat _ (bits >>> 42)
  unusedBits_ := BitVec.ofNat _ (bits >>> 57)

def getYear (date : Date) : Int := date.year_.toNat + minYear
def getMonth (date : Date) : Int := date.month_.toNat
def getDay (date : Date) : Int := date.day_.toNat
def getHour (date : Date) : Int := date.hour_.toNat + minHour
def getMinute (date : Date) : Int := date.minute_.toNat
def getSecond (date : Date) : Rat := date.second_.toNat / secondMultiplier

def getTimeZone (date : Date) : TimeZone :=
  let tz : Int := date.timeZone_.toNat + minTimeZoneActually
  -- Again factor out the special values.
  if tz = 0 then .NoTimeZone
  else if tz = 1 then .TimeZoneZ
  else .hours (if 0 < tz then tz - 2 else tz)

def components (date : Date) : Components :=
  ⟨date.getYear,date.getMonth,date.getDay,date.getHour,date.getMinute,date.getSecond,date.getTimeZone⟩

theorem widths_eq : widths = [7,15,4,5,5,6,16,6] := by decide +kernel

theorem numBits_eq : numUnusedBits = 7 ∧ numBitsYear = 15 ∧ numBitsMonth = 4 ∧ numBitsDay = 5 ∧ numBitsHour = 5 ∧ numBitsMinute = 6 ∧
    numBitsSecond = 16 ∧ numBitsTimeZone = 6 := by
  simpa only [widths,List.cons.injEq,and_true] using widths_eq

variable (date : Date)

theorem fits : Fits widths date.fields := by
  simp only [Fits,widths,fields,List.forall₂_cons,List.forall₂_nil_right_iff]
  exact ⟨date.unusedBits_.isLt,date.year_.isLt,date.month_.isLt,date.day_.isLt,date.hour_.isLt,date.minute_.isLt,date.second_.isLt,
    date.timeZone_.isLt,trivial⟩

theorem fields_injective {date other : Date} (same : date.fields = other.fields) : date = other := by
  obtain ⟨_,_,_,_,_,_,_,_⟩ := date
  obtain ⟨_,_,_,_,_,_,_,_⟩ := other
  simp only [fields,List.cons.injEq,BitVec.toNat_inj] at same
  simp [same]

theorem fields_fromBits (bits : Nat) : (fromBits bits).fields = unpack widths bits := by
  obtain ⟨unusedBits,year,month,day,hour,minute,second,timeZone⟩ := numBits_eq
  simp [fields,fromBits,widths,unpack,Nat.shiftRight_eq_div_pow,unusedBits,year,month,day,hour,minute,second,timeZone]

theorem fromBits_toBits : fromBits date.toBits = date := by
  apply fields_injective
  rw [fields_fromBits,toBits,unpack_pack date.fits]

def usedBits (date : Date) : Nat := pack widths.tail date.fields.tail

theorem usedBits_lt : date.usedBits < 2 ^ 57 := by
  have small := pack_lt (List.forall₂_cons.mp date.fits).2
  have sum : widths.tail.sum = 57 := by decide +kernel
  rw [← sum]
  exact small

theorem toBits_eq : date.toBits = date.unusedBits_.toNat * 2 ^ 57 + date.usedBits := by
  have sum : widths.tail.sum = 57 := by decide +kernel
  rw [← sum]
  rfl

theorem toBits_lt_iff (other : Date) : date.toBits < other.toBits ↔ date.fields < other.fields := pack_lt_iff date.fits other.fits

structure Valid (c : Components) : Prop where
  year : minYear ≤ c.year ∧ c.year ≤ maxYear
  month : minMonth ≤ c.month ∧ c.month ≤ maxMonth
  day : minDay ≤ c.day ∧ c.day ≤ maxDay
  hour : minHour ≤ c.hour ∧ c.hour ≤ maxHour
  minute : minMinute ≤ c.minute ∧ c.minute ≤ maxMinute
  second : minSecond ≤ c.second ∧ c.second < maxSecond
  timeZone : ∀ value,c.timeZone = .hours value → minTimeZone ≤ value ∧ value ≤ maxTimeZone

def TimeZone.internal : TimeZone → Int
  | .NoTimeZone => 0
  | .TimeZoneZ => 1
  | .hours value => if value < 0 then value else value + 2

def Components.ticks (c : Components) : Int := round (c.second * secondMultiplier)

def ofComponents (c : Components) : Date where
  timeZone_ := BitVec.ofInt _ (TimeZone.internal c.timeZone - minTimeZoneActually)
  second_ := BitVec.ofInt _ c.ticks
  minute_ := BitVec.ofInt _ c.minute
  hour_ := BitVec.ofInt _ (c.hour - minHour)
  day_ := BitVec.ofInt _ c.day
  month_ := BitVec.ofInt _ c.month
  year_ := BitVec.ofInt _ (c.year - minYear)
  unusedBits_ := 0

theorem checkBoundsIncludingMax_eq_ok (element min max : Int) (name : String) (result : Unit) :
    checkBoundsIncludingMax element min max name = .ok result ↔ min ≤ element ∧ element ≤ max := by
  rw [checkBoundsIncludingMax]
  by_cases inside : min ≤ element ∧ element ≤ max
  · rw [if_neg (by simpa [not_lt] using inside)]
    exact iff_of_true rfl inside
  · rw [if_pos (by simpa [or_iff_not_imp_left] using inside)]
    exact iff_of_false nofun inside

theorem checkBoundsExcludingMax_eq_ok (element min max : Rat) (name : String) (result : Unit) :
    checkBoundsExcludingMax element min max name = .ok result ↔ min ≤ element ∧ element < max := by
  rw [checkBoundsExcludingMax]
  by_cases inside : min ≤ element ∧ element < max
  · rw [if_neg (by simpa [not_lt,not_le] using inside)]
    exact iff_of_true rfl inside
  · rw [if_pos (by simpa [or_iff_not_imp_left] using inside)]
    exact iff_of_false nofun inside

theorem timeZoneAsInternalInt_eq_ok (timeZone : TimeZone) (result : Int) : timeZoneAsInternalInt timeZone = .ok result ↔
    (∀ value,timeZone = .hours value → minTimeZone ≤ value ∧ value ≤ maxTimeZone) ∧ result = TimeZone.internal timeZone := by
  cases timeZone with
  | NoTimeZone | TimeZoneZ =>
    simp only [timeZoneAsInternalInt,pure_eq_ok,reduceCtorEq,false_imp_iff,implies_true,true_and,TimeZone.internal]
    exact eq_comm
  | hours value =>
    simp only [timeZoneAsInternalInt,bind_eq_ok,checkBoundsIncludingMax_eq_ok,pure_eq_ok,TimeZone.hours.injEq,forall_eq',TimeZone.internal]
    constructor
    · rintro ⟨_,inside,rfl⟩
      exact ⟨inside,rfl⟩
    · rintro ⟨inside,rfl⟩
      exact ⟨(),inside,rfl⟩

theorem make_eq_ok_iff (c : Components) (date : Date) : make c = .ok date ↔ Valid c ∧ date = ofComponents c := by
  simp only [make,setYear,setMonth,setDay,setHour,setMinute,setSecond,setTimeZone,bind_eq_ok,pure_eq_ok,checkBoundsIncludingMax_eq_ok,
    checkBoundsExcludingMax_eq_ok,timeZoneAsInternalInt_eq_ok]
  constructor
  · rintro ⟨_,⟨_,year,rfl⟩,_,⟨_,month,rfl⟩,_,⟨_,day,rfl⟩,_,⟨_,hour,rfl⟩,_,⟨_,minute,rfl⟩,_,⟨_,second,rfl⟩,_,⟨timeZone,rfl⟩,rfl⟩
    exact ⟨⟨year,month,day,hour,minute,second,timeZone⟩,rfl⟩
  · rintro ⟨valid,rfl⟩
    exact ⟨_,⟨(),valid.year,rfl⟩,_,⟨(),valid.month,rfl⟩,_,⟨(),valid.day,rfl⟩,_,⟨(),valid.hour,rfl⟩,_,⟨(),valid.minute,rfl⟩,_,⟨(),valid.second,rfl⟩,_,
      ⟨valid.timeZone,rfl⟩,rfl⟩

theorem toNat_ofInt {width : Nat} {value : Int} (nonneg : 0 ≤ value) (small : value < 2 ^ width) : ((BitVec.ofInt width value).toNat : Int) = value := by
  rw [BitVec.toNat_ofInt,Int.toNat_of_nonneg (Int.emod_nonneg _ (by positivity))]
  exact Int.emod_eq_of_lt nonneg (by exact_mod_cast small)

section OfComponents
variable {c : Components}

theorem ticks_bounds (valid : Valid c) : 0 ≤ c.ticks ∧ c.ticks < 2 ^ numBitsSecond := by
  obtain ⟨atLeast,below⟩ := valid.second
  simp only [minSecond,maxSecond] at atLeast below
  rw [Components.ticks,round_eq,secondMultiplier]
  constructor
  · apply Int.floor_nonneg.mpr
    linarith
  · have below' : ⌊c.second * 1024 + 1 / 2⌋ < 61441 := by
      rw [Int.floor_lt]
      push_cast
      linarith
    rw [numBits_eq.2.2.2.2.2.2.1]
    omega

theorem internal_bounds (valid : Valid c) : minTimeZoneActually ≤ TimeZone.internal c.timeZone ∧ TimeZone.internal c.timeZone ≤ maxTimeZoneActually := by
  cases zone : c.timeZone with
  | NoTimeZone | TimeZoneZ => decide
  | hours value =>
    obtain ⟨atLeast,atMost⟩ := valid.timeZone value zone
    simp only [minTimeZone,maxTimeZone] at atLeast atMost
    simp only [TimeZone.internal,minTimeZoneActually,maxTimeZoneActually]
    split <;> omega

def Components.stored (c : Components) : Components := {c with second := c.ticks / secondMultiplier}

theorem fields_ofComponents (valid : Valid c) : (ofComponents c).fields.map Int.ofNat =
    [0,c.year - minYear,c.month,c.day,c.hour - minHour,c.minute,c.ticks,TimeZone.internal c.timeZone - minTimeZoneActually] := by
  obtain ⟨_,year,month,day,hour,minute,_,timeZone⟩ := numBits_eq
  obtain ⟨ticksNonneg,ticksSmall⟩ := ticks_bounds valid
  have zoneBounds := internal_bounds valid
  have yearBounds := valid.year
  have monthBounds := valid.month
  have dayBounds := valid.day
  have hourBounds := valid.hour
  have minuteBounds := valid.minute
  simp only [minYear,maxYear,minMonth,maxMonth,minDay,maxDay,minHour,maxHour,minMinute,maxMinute,minTimeZoneActually,maxTimeZoneActually] at *
  simp only [fields,ofComponents,List.map_cons,List.map_nil,Int.ofNat_eq_natCast,List.cons.injEq,and_true,minYear,minHour,minTimeZoneActually]
  refine ⟨rfl,?_,?_,?_,?_,?_,toNat_ofInt ticksNonneg ticksSmall,?_⟩
  · exact toNat_ofInt (by omega) (by rw [year]; omega)
  · exact toNat_ofInt (by omega) (by rw [month]; omega)
  · exact toNat_ofInt (by omega) (by rw [day]; omega)
  · exact toNat_ofInt (by omega) (by rw [hour]; omega)
  · exact toNat_ofInt (by omega) (by rw [minute]; omega)
  · exact toNat_ofInt (by omega) (by rw [timeZone]; omega)

theorem getTimeZone_eq {date : Date} {timeZone : TimeZone} (field : (date.timeZone_.toNat : Int) = TimeZone.internal timeZone - minTimeZoneActually) :
    date.getTimeZone = timeZone := by
  simp only [getTimeZone,field,sub_add_cancel]
  cases timeZone with
  | NoTimeZone | TimeZoneZ => rfl
  | hours value =>
    by_cases negative : value < 0
    · have internal : TimeZone.internal (.hours value) = value := if_pos negative
      rw [internal,if_neg (by omega),if_neg (by omega),if_neg (by omega)]
    · have internal : TimeZone.internal (.hours value) = value + 2 := if_neg negative
      rw [internal,if_neg (by omega),if_neg (by omega),if_pos (by omega),add_sub_cancel_right]

theorem components_ofComponents (valid : Valid c) : (ofComponents c).components = c.stored := by
  have isFields := fields_ofComponents valid
  simp only [fields,List.map_cons,List.map_nil,Int.ofNat_eq_natCast,List.cons.injEq,and_true] at isFields
  obtain ⟨_,year,month,day,hour,minute,second,timeZone⟩ := isFields
  simp only [components,getYear,getMonth,getDay,getHour,getMinute,getSecond,getTimeZone_eq timeZone,year,month,day,hour,minute,sub_add_cancel,
    Components.stored,← second,Int.cast_natCast]

def Components.key (c : Components) : List Int := [c.year,c.month,c.day,c.hour,c.minute,c.ticks,TimeZone.internal c.timeZone]

def offsets : List Int := [0,minYear,minMonth,minDay,minHour,minMinute,0,minTimeZoneActually]

theorem zipWith_offsets_fields (valid : Valid c) :
    List.zipWith (fun (offset : Int) (field : Nat) => (field : Int) + offset) offsets (ofComponents c).fields = 0::c.key := by
  have isFields := fields_ofComponents valid
  simp only [fields,List.map_cons,List.map_nil,Int.ofNat_eq_natCast,List.cons.injEq,and_true] at isFields
  obtain ⟨unusedBits,year,month,day,hour,minute,second,timeZone⟩ := isFields
  simp only [offsets,fields,List.zipWith_cons_cons,List.zipWith_nil_left,Components.key,unusedBits,year,month,day,hour,minute,second,timeZone,
    minMonth,minDay,minMinute,sub_add_cancel,add_zero]

theorem toBits_ofComponents_lt_iff {other : Components} (valid : Valid c) (validOther : Valid other) :
    (ofComponents c).toBits < (ofComponents other).toBits ↔ c.key < other.key := by
  have mono : ∀ offset : Int,StrictMono (fun field : Nat => (field : Int) + offset) := by
    intro offset field other less
    simpa using less
  have shifted := zipWith_lt_zipWith_iff mono (show (ofComponents c).fields.length = offsets.length from rfl)
    (show (ofComponents other).fields.length = offsets.length from rfl)
  rw [toBits_lt_iff,← shifted,zipWith_offsets_fields valid,zipWith_offsets_fields validOther]
  simp

end OfComponents

end Date
end Qlever
