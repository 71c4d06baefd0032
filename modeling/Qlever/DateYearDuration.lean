import Qlever.Duration

/-! The class `DateYearOrDuration`: a date, a year that is too large for a date, or a duration. Two bits above the payload tell them apart, so that
the order of the words is the order of the years.
-/
namespace Qlever
open Library BitFields DayTimeDuration

namespace NBitInteger

def toNBit (bits : Nat) (i : Int) : Nat := (BitVec.ofInt bits i).toNat

def fromNBit (bits t : Nat) : Int := (BitVec.ofNat bits t).toInt

def max (bits : Nat) : Int := 2 ^ (bits - 1) - 1

def min (bits : Nat) : Int := -2 ^ (bits - 1)

end NBitInteger

inductive YearType
  | Year
  | YearMonth
  | Date
  | DateTime
  deriving DecidableEq, Repr

def YearType.toNat : YearType → Nat
  | Year => 0
  | YearMonth => 1
  | Date => 2
  | DateTime => 3

def YearType.fromNat : Nat → YearType
  | 0 => Year
  | 1 => YearMonth
  | 2 => Date
  | _ => DateTime

structure DateYearOrDuration where
  bits_ : Nat
  deriving DecidableEq, Repr

namespace DateYearOrDuration

def negativeYear : Nat := 0
def datetime : Nat := 1
def positiveYear : Nat := 2
def daytimeDuration : Nat := 3
def numPayloadDateBits : Nat := 64 - Date.numUnusedBits
def numPayloadDurationBits : Nat := 64 - numUnusedBits
def numTypeBits : Nat := 2
def numYearBits : Nat := numPayloadDateBits - numTypeBits
def maxYear : Int := NBitInteger.max numYearBits
def minYear : Int := NBitInteger.min numYearBits

inductive Failure
  | date (failure : DateOutOfRangeException)
  | duration (failure : DurationFailure)
  | contractCheck
  deriving DecidableEq, Repr

def ofDate (d : Date) : DateYearOrDuration := ⟨d.toBits ||| datetime <<< numPayloadDateBits⟩

def ofDayTimeDuration (dayTimeDuration : DayTimeDuration) : DateYearOrDuration :=
  ⟨dayTimeDuration.toBits ||| daytimeDuration <<< numPayloadDurationBits⟩

def ofYear (year : Int) (type : YearType) : Except Failure DateYearOrDuration :=
  if !(year < Date.minYear || Date.maxYear < year) then throw .contractCheck
  else if !(minYear ≤ year && year ≤ maxYear) then throw .contractCheck
  else
    let flag := if year < 0 then negativeYear else positiveYear
    return ⟨NBitInteger.toNBit numYearBits year <<< numTypeBits ||| flag <<< numPayloadDateBits ||| type.toNat⟩

def toBits (d : DateYearOrDuration) : Nat := d.bits_

/-- A `bit_cast`, as in the ID of a date. -/
def fromBits (bits : Nat) : DateYearOrDuration := ⟨bits⟩

def isDate (d : DateYearOrDuration) : Bool := d.bits_ >>> numPayloadDateBits = datetime

def isDayTimeDuration (d : DateYearOrDuration) : Bool := d.bits_ >>> numPayloadDurationBits = daytimeDuration

def getDateUnchecked (d : DateYearOrDuration) : Date := Date.fromBits d.bits_

def getDayTimeDurationUnchecked (d : DateYearOrDuration) : DayTimeDuration := DayTimeDuration.fromBits d.bits_

def getYear (d : DateYearOrDuration) : Int :=
  if d.isDate then d.getDateUnchecked.getYear else NBitInteger.fromNBit numYearBits (d.bits_ >>> numTypeBits)

def getType (d : DateYearOrDuration) : YearType := .fromNat (d.bits_ % 2 ^ numTypeBits)

inductive Arguments
  | date (c : Date.Components)
  | largeYear (year : Int) (type : YearType)
  | duration (c : DayTimeDuration.Components)
  deriving DecidableEq

def make : Arguments → Except Failure DateYearOrDuration
  | .date c => (Date.make c).mapError .date |>.map ofDate
  | .largeYear year type => ofYear year type
  | .duration c => (DayTimeDuration.make c).mapError .duration |>.map ofDayTimeDuration

def arguments (d : DateYearOrDuration) : Arguments :=
  if d.isDate then .date d.getDateUnchecked.components
  else if d.isDayTimeDuration then .duration d.getDayTimeDurationUnchecked.components
  else .largeYear d.getYear d.getType

theorem numBits_eq : numPayloadDateBits = 57 ∧ numPayloadDurationBits = 48 ∧ numYearBits = 55 := by decide +kernel

theorem isDate_eq (bits : Nat) : isDate ⟨bits⟩ = decide (bits / 2 ^ 57 = 1) := by
  rw [isDate,numBits_eq.1,Nat.shiftRight_eq_div_pow]
  rfl

theorem isDayTimeDuration_eq (bits : Nat) : isDayTimeDuration ⟨bits⟩ = decide (bits / 2 ^ 48 = 3) := by
  rw [isDayTimeDuration,numBits_eq.2.1,Nat.shiftRight_eq_div_pow]
  rfl

theorem or_shiftLeft {value width : Nat} (small : value < 2 ^ width) (tag : Nat) : value ||| tag <<< width = tag * 2 ^ width + value := by
  rw [Nat.or_comm,← Nat.shiftLeft_add_eq_or_of_lt small,Nat.shiftLeft_eq]

namespace Arguments

def Valid : Arguments → Prop
  | date c => Date.Valid c
  | largeYear year _ => (year < Date.minYear ∨ Date.maxYear < year) ∧ minYear ≤ year ∧ year ≤ maxYear
  | duration c => DayTimeDuration.Valid c

/-- What is read back: a second of a date is rounded to a multiple of 1/1024, and a duration is normalized. -/
def stored : Arguments → Arguments
  | date c => date c.stored
  | largeYear year type => largeYear year type
  | duration c => duration c.stored

def kind : Arguments → Int
  | duration _ => 0
  | largeYear year _ => if year < 0 then 1 else 3
  | date _ => 2

def value : Arguments → List Int
  | date c => c.key
  | largeYear year type => [year,type.toNat]
  | duration c => [c.total]

def key (a : Arguments) : List Int := a.kind::a.value

def bits : Arguments → Nat
  | date c => 2 ^ 57 + (Date.ofComponents c).toBits
  | largeYear year type => (if year < 0 then 0 else 2 ^ 58) + (year % 2 ^ 55).toNat * 4 + type.toNat
  | duration c => 3 * 2 ^ 48 + (ofTotal c.total).toBits

theorem usedBits_eq (c : Date.Components) : (Date.ofComponents c).toBits = (Date.ofComponents c).usedBits := by
  rw [Date.toBits_eq,show (Date.ofComponents c).unusedBits_ = 0 from rfl]
  simp

theorem milliseconds_eq (total : Int) :
    (ofTotal total).toBits = (ofTotal total).totalMilliseconds_.toNat := by
  rw [toBits_eq,show (ofTotal total).unusedBits_ = 0 from rfl]
  simp

theorem bits_date (c : Date.Components) : ofDate (Date.ofComponents c) = ⟨(date c).bits⟩ := by
  have small := (Date.ofComponents c).usedBits_lt
  rw [ofDate,usedBits_eq,numBits_eq.1,or_shiftLeft small,bits,usedBits_eq]
  simp [datetime]

theorem bits_duration (c : DayTimeDuration.Components) : ofDayTimeDuration (ofTotal c.total) = ⟨(duration c).bits⟩ := by
  have small := (ofTotal c.total).totalMilliseconds_lt
  rw [ofDayTimeDuration,milliseconds_eq,numBits_eq.2.1,or_shiftLeft small,bits,milliseconds_eq,daytimeDuration]

theorem toNat_lt (type : YearType) : type.toNat < 2 ^ 2 := by
  cases type <;> decide

theorem ofYear_eq_ok (year : Int) (type : YearType) (d : DateYearOrDuration) :
    ofYear year type = .ok d ↔ (largeYear year type).Valid ∧ d = ⟨(largeYear year type).bits⟩ := by
  have isWord : NBitInteger.toNBit numYearBits year <<< numTypeBits ||| (if year < 0 then negativeYear else positiveYear) <<< numPayloadDateBits |||
      type.toNat = (largeYear year type).bits := by
    have isYear : NBitInteger.toNBit numYearBits year = (year % 2 ^ 55).toNat := by
      rw [NBitInteger.toNBit,BitVec.toNat_ofInt,numBits_eq.2.2]
      rfl
    have small : (year % 2 ^ 55).toNat < 2 ^ 55 := by omega
    have shifted : (year % 2 ^ 55).toNat * 2 ^ 2 < 2 ^ 57 := by omega
    have typed : ∀ flag : Nat,flag * 2 ^ 57 + (year % 2 ^ 55).toNat * 2 ^ 2 = (flag * 2 ^ 55 + (year % 2 ^ 55).toNat) <<< 2 := by
      intro flag
      rw [Nat.shiftLeft_eq]
      ring
    rw [isYear,numBits_eq.1,numTypeBits,Nat.shiftLeft_eq,or_shiftLeft shifted,typed,← Nat.shiftLeft_add_eq_or_of_lt (toNat_lt type),Nat.shiftLeft_eq,bits]
    split <;> simp only [negativeYear,positiveYear] <;> ring
  simp only [ofYear,Valid,isWord]
  by_cases large : year < Date.minYear ∨ Date.maxYear < year
  · rw [if_neg (by simpa [or_iff_not_imp_left] using large)]
    by_cases inside : minYear ≤ year ∧ year ≤ maxYear
    · rw [if_neg (by simpa [or_iff_not_imp_left] using inside)]
      exact ⟨fun made => ⟨⟨large,inside⟩,(Except.ok.inj made).symm⟩,fun valid => congrArg Except.ok valid.2.symm⟩
    · rw [if_pos (by simpa [or_iff_not_imp_left] using inside)]
      exact iff_of_false nofun (fun valid => inside valid.1.2)
  · rw [if_pos (by simpa [or_iff_not_imp_left] using large)]
    exact iff_of_false nofun (fun valid => large valid.1.1)

theorem mapError_map_eq_ok {ε ε' α β : Type} {first : Except ε α} {wrap : ε → ε'} {f : α → β} {result : β} :
    (first.mapError wrap).map f = .ok result ↔ ∃ value,first = .ok value ∧ result = f value := by
  cases first with
  | error failure => simp [Except.mapError,Except.map]
  | ok value => simp [Except.mapError,Except.map,eq_comm]

theorem make_eq_ok_iff (a : Arguments) (d : DateYearOrDuration) : make a = .ok d ↔ a.Valid ∧ d = ⟨a.bits⟩ := by
  cases a with
  | date c =>
    rw [make,mapError_map_eq_ok,Valid,← bits_date]
    simp only [Date.make_eq_ok_iff,and_assoc,exists_and_left,exists_eq_left]
  | largeYear year type => exact ofYear_eq_ok year type d
  | duration c =>
    rw [make,mapError_map_eq_ok,Valid,← bits_duration]
    simp only [DayTimeDuration.make_eq_ok_iff,and_assoc,exists_and_left,exists_eq_left]

variable {a : Arguments}

theorem bits_bounds (valid : a.Valid) :
    (a.kind = 0 ∧ 3 * 2 ^ 48 ≤ a.bits ∧ a.bits < 4 * 2 ^ 48) ∨ (a.kind = 1 ∧ 2 ^ 56 ≤ a.bits ∧ a.bits < 2 ^ 57) ∨
      (a.kind = 2 ∧ 2 ^ 57 ≤ a.bits ∧ a.bits < 2 ^ 58) ∨ (a.kind = 3 ∧ 2 ^ 58 ≤ a.bits ∧ a.bits < 2 ^ 59) := by
  cases a with
  | date c =>
    have small := (Date.ofComponents c).usedBits_lt
    rw [← usedBits_eq] at small
    refine Or.inr (Or.inr (Or.inl ⟨rfl,?_⟩))
    rw [bits]
    omega
  | largeYear year type =>
    have isType := toNat_lt type
    have inside := valid.2
    have notBetween := valid.1
    simp only [minYear,maxYear,NBitInteger.min,NBitInteger.max,numBits_eq.2.2,Date.minYear,Date.maxYear] at inside notBetween
    rw [bits,kind]
    by_cases negative : year < 0
    · refine Or.inr (Or.inl ⟨if_pos negative,?_⟩)
      rw [if_pos negative]
      omega
    · refine Or.inr (Or.inr (Or.inr ⟨if_neg negative,?_⟩))
      rw [if_neg negative]
      omega
  | duration c =>
    have small := (ofTotal c.total).totalMilliseconds_lt
    rw [← milliseconds_eq] at small
    refine Or.inl ⟨rfl,?_⟩
    rw [bits]
    omega

theorem arguments_date {c : Date.Components} (valid : Date.Valid c) : arguments ⟨(date c).bits⟩ = date c.stored := by
  have small := (Date.ofComponents c).usedBits_lt
  have isDate : isDate ⟨(date c).bits⟩ = true := by
    rw [isDate_eq,bits,usedBits_eq]
    exact decide_eq_true (by omega)
  have one : (1 : BitVec Date.numUnusedBits).toNat = 1 := by decide +kernel
  have isBits : (date c).bits = {Date.ofComponents c with unusedBits_ := 1}.toBits := by
    rw [bits,usedBits_eq,Date.toBits_eq,one,Nat.one_mul]
    rfl
  rw [arguments,isDate,if_pos rfl,getDateUnchecked,isBits,Date.fromBits_toBits,← Date.components_ofComponents valid]
  rfl

theorem arguments_duration {c : DayTimeDuration.Components} (valid : DayTimeDuration.Valid c) :
    arguments ⟨(duration c).bits⟩ = duration c.stored := by
  have small := (ofTotal c.total).totalMilliseconds_lt
  have notDate : isDate ⟨(duration c).bits⟩ = false := by
    rw [isDate_eq,bits,milliseconds_eq]
    exact decide_eq_false (by omega)
  have isDuration : isDayTimeDuration ⟨(duration c).bits⟩ = true := by
    rw [isDayTimeDuration_eq,bits,milliseconds_eq]
    exact decide_eq_true (by omega)
  have three : (3 : BitVec numUnusedBits).toNat = 3 := by decide +kernel
  have isBits : (duration c).bits = {ofTotal c.total with unusedBits_ := 3}.toBits := by
    rw [bits,milliseconds_eq,toBits_eq,three]
  rw [arguments,notDate,if_neg Bool.false_ne_true,isDuration,if_pos rfl,getDayTimeDurationUnchecked,isBits,fromBits_toBits,
    ← components_ofTotal valid]
  rfl

theorem fromNat_toNat (type : YearType) : YearType.fromNat type.toNat = type := by
  cases type <;> rfl

theorem arguments_largeYear {year : Int} {type : YearType} (valid : (largeYear year type).Valid) :
    arguments ⟨(largeYear year type).bits⟩ = largeYear year type := by
  have isType := toNat_lt type
  have inside := valid.2
  have notBetween := valid.1
  simp only [minYear,maxYear,NBitInteger.min,NBitInteger.max,numBits_eq.2.2,Date.minYear,Date.maxYear] at inside notBetween
  have isWord : (largeYear year type).bits = (if year < 0 then 0 else 2 ^ 58) + (year % 2 ^ 55).toNat * 4 + type.toNat := rfl
  have notDate : isDate ⟨(largeYear year type).bits⟩ = false := by
    rw [isDate_eq,isWord]
    exact decide_eq_false (by split <;> omega)
  have notDuration : isDayTimeDuration ⟨(largeYear year type).bits⟩ = false := by
    rw [isDayTimeDuration_eq,isWord]
    exact decide_eq_false (by split <;> omega)
  have typeBits : (largeYear year type).bits % 2 ^ 2 = type.toNat := by
    rw [isWord]
    split <;> omega
  have isYear : (((largeYear year type).bits / 2 ^ 2 : Nat) : Int).bmod (2 ^ 55) = year := by
    rw [isWord,Int.bmod_def]
    split <;> split <;> omega
  rw [arguments,notDate,if_neg Bool.false_ne_true,notDuration,if_neg Bool.false_ne_true,getYear,notDate,if_neg Bool.false_ne_true,getType,
    numTypeBits,typeBits,fromNat_toNat,numBits_eq.2.2,NBitInteger.fromNBit,BitVec.toInt_ofNat',Nat.shiftRight_eq_div_pow,isYear]

theorem arguments_bits (valid : a.Valid) : arguments ⟨a.bits⟩ = a.stored := by
  cases a with
  | date c => exact arguments_date valid
  | largeYear year type => exact arguments_largeYear valid
  | duration c => exact arguments_duration valid

theorem bits_lt_of_sameKind {b : Arguments} (valid : a.Valid) (valid' : b.Valid) (sameKind : a.kind = b.kind) :
    a.bits < b.bits ↔ a.value < b.value := by
  have notDate : ∀ year type c,(largeYear year type).kind ≠ (date c).kind := by
    intro year type c
    simp only [kind]
    split <;> decide
  have notDuration : ∀ year type c,(largeYear year type).kind ≠ (duration c).kind := by
    intro year type c
    simp only [kind]
    split <;> decide
  cases a with
  | date c =>
    cases b with
    | date c' => rw [bits,bits,Nat.add_lt_add_iff_left,value,value,Date.toBits_ofComponents_lt_iff valid valid']
    | largeYear year type => exact absurd sameKind.symm (notDate year type c)
    | duration c' => cases sameKind
  | largeYear year type =>
    cases b with
    | date c => exact absurd sameKind (notDate year type c)
    | largeYear year' type' =>
      have isType := toNat_lt type
      have isType' := toNat_lt type'
      have inside := valid.2
      have inside' := valid'.2
      simp only [kind] at sameKind
      simp only [minYear,maxYear,NBitInteger.min,NBitInteger.max,numBits_eq.2.2] at inside inside'
      simp only [bits,value,List.cons_lt_cons_iff,lt_irrefl,and_false,or_false]
      by_cases negative : year < 0
      · have negative' : year' < 0 := by
          by_contra nonneg
          rw [if_pos negative,if_neg nonneg] at sameKind
          cases sameKind
        rw [if_pos negative,if_pos negative']
        omega
      · have nonneg' : ¬ year' < 0 := by
          intro negative'
          rw [if_neg negative,if_pos negative'] at sameKind
          cases sameKind
        rw [if_neg negative,if_neg nonneg']
        omega
    | duration c => exact absurd sameKind (notDuration year type c)
  | duration c =>
    cases b with
    | date c' => cases sameKind
    | largeYear year type => exact absurd sameKind.symm (notDuration year type c)
    | duration c' =>
      have field := toNat_ofTotal (total_bounds valid)
      have field' := toNat_ofTotal (total_bounds valid')
      rw [bits,bits,Nat.add_lt_add_iff_left,milliseconds_eq,milliseconds_eq,value,value,List.cons_lt_cons_iff]
      simp only [lt_irrefl,and_false,or_false]
      omega

theorem bits_lt_iff {b : Arguments} (valid : a.Valid) (valid' : b.Valid) : a.bits < b.bits ↔ a.key < b.key := by
  rw [key,key,List.cons_lt_cons_iff]
  have bounds := bits_bounds valid
  have bounds' := bits_bounds valid'
  by_cases sameKind : a.kind = b.kind
  · simp only [sameKind,lt_irrefl,false_or,true_and]
    exact bits_lt_of_sameKind valid valid' sameKind
  · simp only [sameKind,false_and,or_false]
    omega

def Exact : Arguments → Prop
  | date c => ∃ ticks : Int,c.second = ticks / 1024
  | largeYear _ _ => True
  | duration c => c.Normalized

theorem stored_eq (valid : a.Valid) (exact' : a.Exact) : a.stored = a := by
  cases a with
  | date c =>
    obtain ⟨ticks,second⟩ := exact'
    have isTicks : c.ticks = ticks := by
      rw [Date.Components.ticks,second,Date.secondMultiplier,div_mul_cancel₀ _ (by norm_num),round_intCast]
    rw [stored,Date.Components.stored,isTicks,Date.secondMultiplier,← second]
  | largeYear year type => rfl
  | duration c => rw [stored,DayTimeDuration.stored_eq valid exact']

end Arguments

end DateYearOrDuration
end Qlever
