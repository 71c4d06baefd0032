import Qlever.Date
import Qlever.Library.NearestDouble

/-! The class `DayTimeDuration`, a signed number of milliseconds in the lower 48 bits of a word. -/
namespace Qlever
open Library BitFields

/-- The failures of the constructor. `undefined` stands for a cast or a sum that does not fit into `long long`. -/
inductive DurationFailure
  | contractCheck
  | overflow (className xsdDatatype : String)
  | undefined
  deriving DecidableEq, Repr

namespace DayTimeDuration

def secondMultiplier : Int := 1000
def minuteMultiplier : Int := 60 * secondMultiplier
def hourMultiplier : Int := 60 * minuteMultiplier
def dayMultiplier : Int := 24 * hourMultiplier
def maxDays : Int := 1048575
def boundTotalMilliseconds : Int := (maxDays + 1) * dayMultiplier
def numMillisecondBits : Nat := bitWidth (boundTotalMilliseconds * 2).toNat
def numUnusedBits : Nat := 64 - numMillisecondBits

inductive SignType
  | Negative
  | Positive
  deriving DecidableEq, Repr

structure Components where
  signType : SignType := .Positive
  days : Int := 0
  hours : Int := 0
  minutes : Int := 0
  seconds : Rat := 0
  deriving DecidableEq

end DayTimeDuration

example : DayTimeDuration.numUnusedBits = 16 := by decide +kernel

open DayTimeDuration in
structure DayTimeDuration where
  totalMilliseconds_ : BitVec numMillisecondBits
  unusedBits_ : BitVec numUnusedBits
  deriving DecidableEq

namespace DayTimeDuration

/-- The number of milliseconds before the sign is applied. The product is rounded to a `double` and then to an integer. -/
def Components.totalMilliseconds (c : Components) : Int :=
  c.days * dayMultiplier + c.hours * hourMultiplier + c.minutes * minuteMultiplier + round (Binary64.nearest (c.seconds * secondMultiplier))

def Components.sign (c : Components) : Int := if c.signType = .Positive then 1 else -1

def make (c : Components) : Except DurationFailure DayTimeDuration :=
  if !(0 ≤ c.days && 0 ≤ c.hours && 0 ≤ c.minutes && 0 ≤ c.seconds) then throw .contractCheck
  else if 2 ^ 63 ≤ c.totalMilliseconds then throw .undefined
  else if boundTotalMilliseconds ≤ c.totalMilliseconds then throw (.overflow "DayTimeDuration" "xsd:dayTimeDuration")
  else return ⟨BitVec.ofInt _ (c.totalMilliseconds * c.sign + boundTotalMilliseconds),0⟩

def isPositive (duration : DayTimeDuration) : Bool := boundTotalMilliseconds ≤ duration.totalMilliseconds_.toNat

/-- The sign and the values of `getValues`. -/
def components (duration : DayTimeDuration) : Components :=
  let totalMilliseconds : Int := duration.totalMilliseconds_.toNat - boundTotalMilliseconds
  let totalMilliseconds := if totalMilliseconds < 0 then -totalMilliseconds else totalMilliseconds
  let numDays := totalMilliseconds / dayMultiplier
  let totalMilliseconds := totalMilliseconds - numDays * dayMultiplier
  let numHours := totalMilliseconds / hourMultiplier
  let totalMilliseconds := totalMilliseconds - numHours * hourMultiplier
  let numMinutes := totalMilliseconds / minuteMultiplier
  let numSeconds := totalMilliseconds - numMinutes * minuteMultiplier
  ⟨if duration.isPositive then .Positive else .Negative,numDays,numHours,numMinutes,Binary64.nearest (numSeconds / secondMultiplier)⟩

def widths : List Nat := [numUnusedBits,numMillisecondBits]

def fields (duration : DayTimeDuration) : List Nat := [duration.unusedBits_.toNat,duration.totalMilliseconds_.toNat]

def toBits (duration : DayTimeDuration) : Nat := pack widths duration.fields

def fromBits (bits : Nat) : DayTimeDuration where
  totalMilliseconds_ := BitVec.ofNat _ bits
  unusedBits_ := BitVec.ofNat _ (bits >>> 48)

theorem numBits_eq : numUnusedBits = 16 ∧ numMillisecondBits = 48 := by decide +kernel

variable (duration : DayTimeDuration)

theorem fits : Fits widths duration.fields := by
  simp only [Fits,widths,fields,List.forall₂_cons,List.forall₂_nil_right_iff]
  exact ⟨duration.unusedBits_.isLt,duration.totalMilliseconds_.isLt,trivial⟩

theorem fields_injective {duration other : DayTimeDuration} (same : duration.fields = other.fields) : duration = other := by
  obtain ⟨_,_⟩ := duration
  obtain ⟨_,_⟩ := other
  simp only [fields,List.cons.injEq,BitVec.toNat_inj] at same
  simp [same]

theorem fields_fromBits (bits : Nat) : (fromBits bits).fields = unpack widths bits := by
  obtain ⟨unusedBits,milliseconds⟩ := numBits_eq
  simp [fields,fromBits,widths,unpack,Nat.shiftRight_eq_div_pow,unusedBits,milliseconds]

theorem fromBits_toBits : fromBits duration.toBits = duration := by
  apply fields_injective
  rw [fields_fromBits,toBits,unpack_pack duration.fits]

theorem toBits_eq : duration.toBits = duration.unusedBits_.toNat * 2 ^ 48 + duration.totalMilliseconds_.toNat := by
  have isWidths : widths = [16,48] := by decide +kernel
  rw [toBits,fields,isWidths]
  simp [pack]

theorem totalMilliseconds_lt : duration.totalMilliseconds_.toNat < 2 ^ 48 :=
  duration.totalMilliseconds_.isLt.trans_eq (by rw [numBits_eq.2])

structure Valid (c : Components) : Prop where
  days : 0 ≤ c.days
  hours : 0 ≤ c.hours
  minutes : 0 ≤ c.minutes
  seconds : 0 ≤ c.seconds
  total : c.totalMilliseconds < boundTotalMilliseconds

def Components.total (c : Components) : Int := c.totalMilliseconds * c.sign

def ofTotal (total : Int) : DayTimeDuration := ⟨BitVec.ofInt _ (total + boundTotalMilliseconds),0⟩

theorem make_eq_ok_iff (c : Components) (duration : DayTimeDuration) : make c = .ok duration ↔ Valid c ∧ duration = ofTotal c.total := by
  rw [make]
  constructor
  · intro made
    split at made
    next => cases made
    next nonneg =>
      split at made
      next => cases made
      next =>
        split at made
        next => cases made
        next total =>
          simp only [Bool.not_eq_true,Bool.not_eq_false',Bool.and_eq_true,decide_eq_true_eq] at nonneg
          obtain ⟨⟨⟨days,hours⟩,minutes⟩,seconds⟩ := nonneg
          cases made
          exact ⟨⟨days,hours,minutes,seconds,lt_of_not_ge total⟩,rfl⟩
  · rintro ⟨valid,rfl⟩
    have total := valid.total
    simp only [boundTotalMilliseconds,maxDays,dayMultiplier,hourMultiplier,minuteMultiplier,secondMultiplier] at total
    rw [if_neg (by simp [valid.days,valid.hours,valid.minutes,valid.seconds]),if_neg (by omega),if_neg (not_le_of_gt valid.total)]
    rfl

section OfTotal
variable {c : Components} {total : Int}

theorem totalMilliseconds_nonneg (valid : Valid c) : 0 ≤ c.totalMilliseconds := by
  have rounded : 0 ≤ round (Binary64.nearest (c.seconds * secondMultiplier)) := by
    rw [round_eq]
    apply Int.floor_nonneg.mpr
    have product : 0 ≤ c.seconds * secondMultiplier := mul_nonneg valid.seconds (by norm_num [secondMultiplier])
    have nonneg := Binary64.nearest_nonneg product
    linarith
  have days := valid.days
  have hours := valid.hours
  have minutes := valid.minutes
  simp only [Components.totalMilliseconds,dayMultiplier,hourMultiplier,minuteMultiplier,secondMultiplier] at rounded ⊢
  omega

theorem total_bounds (valid : Valid c) : -boundTotalMilliseconds < c.total ∧ c.total < boundTotalMilliseconds := by
  have nonneg := totalMilliseconds_nonneg valid
  have small := valid.total
  rw [Components.total,Components.sign]
  split <;> omega

theorem toNat_ofTotal (bounds : -boundTotalMilliseconds < total ∧ total < boundTotalMilliseconds) :
    ((ofTotal total).totalMilliseconds_.toNat : Int) = total + boundTotalMilliseconds := by
  simp only [boundTotalMilliseconds,maxDays,dayMultiplier,hourMultiplier,minuteMultiplier,secondMultiplier] at bounds
  apply Date.toNat_ofInt
  · simp only [boundTotalMilliseconds,maxDays,dayMultiplier,hourMultiplier,minuteMultiplier,secondMultiplier]
    omega
  · rw [numBits_eq.2]
    simp only [boundTotalMilliseconds,maxDays,dayMultiplier,hourMultiplier,minuteMultiplier,secondMultiplier]
    omega

def Components.stored (c : Components) : Components where
  signType := if 0 ≤ c.total then .Positive else .Negative
  days := c.totalMilliseconds / dayMultiplier
  hours := c.totalMilliseconds % dayMultiplier / hourMultiplier
  minutes := c.totalMilliseconds % hourMultiplier / minuteMultiplier
  seconds := Binary64.nearest ((c.totalMilliseconds % minuteMultiplier : Int) / secondMultiplier)

theorem components_ofTotal (valid : Valid c) : (ofTotal c.total).components = c.stored := by
  have field := toNat_ofTotal (total_bounds valid)
  have nonneg := totalMilliseconds_nonneg valid
  have magnitude : (if c.total < 0 then -c.total else c.total) = c.totalMilliseconds := by
    rw [Components.total,Components.sign]
    split <;> split <;> omega
  have rest : ∀ value divisor : Int,value - value / divisor * divisor = value % divisor := by
    intro value divisor
    rw [Int.emod_def,Int.mul_comm]
  have hours : c.totalMilliseconds % dayMultiplier % hourMultiplier = c.totalMilliseconds % hourMultiplier := Int.emod_emod_of_dvd _ (by decide)
  have minutes : c.totalMilliseconds % hourMultiplier % minuteMultiplier = c.totalMilliseconds % minuteMultiplier :=
    Int.emod_emod_of_dvd _ (by decide)
  simp only [components,isPositive,field,add_sub_cancel_right,magnitude,rest,hours,minutes,le_add_iff_nonneg_left,decide_eq_true_eq,Components.stored]

/-- The duration is given as it is read back: with normalized values, with the double of a whole number of milliseconds and with a positive zero. -/
structure Components.Normalized (c : Components) : Prop where
  hours : c.hours < 24
  minutes : c.minutes < 60
  seconds : ∃ milliseconds : Nat,milliseconds < 60000 ∧ c.seconds = Binary64.nearest (milliseconds / 1000)
  sign : c.signType = .Negative → c.totalMilliseconds ≠ 0

theorem totalMilliseconds_of_nearest (c : Components) {milliseconds : Nat} (small : milliseconds < 2 ^ 50)
    (isDouble : c.seconds = Binary64.nearest (milliseconds / 1000)) :
    c.totalMilliseconds = c.days * 86400000 + c.hours * 3600000 + c.minutes * 60000 + milliseconds := by
  have rounded := @Binary64.round_nearest_mul_nearest_div milliseconds 1000 small (by decide) (by decide)
  rw [Nat.cast_ofNat] at rounded
  rw [Components.totalMilliseconds,isDouble,show ((secondMultiplier : Int) : Rat) = 1000 by norm_num [secondMultiplier],rounded]
  rfl

theorem stored_eq (valid : Valid c) (normalized : c.Normalized) : c.stored = c := by
  obtain ⟨signType,days,hours,minutes,seconds⟩ := c
  obtain ⟨milliseconds,small,rfl⟩ := normalized.seconds
  have isTotal : (Components.mk signType days hours minutes (Binary64.nearest (milliseconds / 1000))).totalMilliseconds =
      days * 86400000 + hours * 3600000 + minutes * 60000 + milliseconds := totalMilliseconds_of_nearest _ (by omega) rfl
  have nonneg := valid.days
  have hoursBounds := And.intro valid.hours normalized.hours
  have minutesBounds := And.intro valid.minutes normalized.minutes
  have sign := normalized.sign
  have notNegative := totalMilliseconds_nonneg valid
  simp only [Components.stored,Components.total,Components.sign,isTotal,dayMultiplier,hourMultiplier,minuteMultiplier,secondMultiplier,
    Components.mk.injEq] at *
  refine ⟨?_,by omega,by omega,by omega,?_⟩
  · cases signType with
    | Positive => exact if_pos (by simpa using notNegative)
    | Negative =>
      have positive := lt_of_le_of_ne notNegative (sign rfl).symm
      apply if_neg
      rw [if_neg (by decide)]
      omega
  · have rest : (days * 86400000 + hours * 3600000 + minutes * 60000 + milliseconds) % (60 * 1000) = (milliseconds : Int) := by omega
    rw [rest]
    norm_num

end OfTotal
end DayTimeDuration
end Qlever
