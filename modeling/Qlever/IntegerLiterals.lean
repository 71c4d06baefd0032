import Qlever.DateYearDuration
import Qlever.RdfEscaping

/-! The integer literals of the Turtle parser, `TurtleParser::parseIntegerConstant`. `absl::from_chars` for doubles is a parameter. -/
namespace Qlever.TurtleParser

inductive IntegerOverflowBehavior
  | Error
  | OverflowingToDouble
  | AllToDouble
  deriving DecidableEq

inductive ErrorCode
  | invalid_argument
  | result_out_of_range
  deriving DecidableEq

/-- What happens to the current triple: `raise`, skipped, or a `TripleComponent` with a number. -/
inductive ParseOutcome (Double : Type)
  | raised
  | ignored
  | int (value : Int)
  | double (value : Double)
  deriving DecidableEq

def plus : UInt8 := 43

def minus : UInt8 := 45

def isDigit (c : UInt8) : Bool := 48 ≤ c && c ≤ 57

def digitsValue (digits : ByteString) : Nat := digits.foldl (fun value c => 10 * value + (c.toNat - 48)) 0

/-- A nonempty sequence of decimal digits, with a minus sign if `negative`. -/
structure IsSigned (negative : Bool) (input : ByteString) (value : Int) : Prop where
  digits : ∃ digits : ByteString,digits ≠ [] ∧ (∀ c ∈ digits,isDigit c = true) ∧ input = (if negative then [minus] else []) ++ digits ∧
    value = if negative then -(digitsValue digits : Int) else digitsValue digits

/-- A decimal integer with an optional sign. -/
def IsInteger (content : ByteString) (value : Int) : Prop :=
  IsSigned false content value ∨ IsSigned true content value ∨ ∃ digits,content = plus :: digits ∧ IsSigned false digits value

def FitsInt64 (value : Int) : Prop := -2 ^ 63 ≤ value ∧ value < 2 ^ 63

instance (value : Int) : Decidable (FitsInt64 value) := inferInstanceAs (Decidable (_ ∧ _))

structure Settings (Double : Type) where
  integerOverflowBehavior : IntegerOverflowBehavior
  invalidLiteralsAreSkipped : Bool
  /-- The number of matched characters, whether there is an error, and the result. -/
  doubleFromChars : ByteString → Nat × Bool × Double
  /-- An integer in the range of doubles is matched as a whole. -/
  doubleFromChars_integer : ∀ negative input value,IsSigned negative input value → value.natAbs < 10 ^ 308 →
    ∃ result,doubleFromChars input = (input.length,false,result)

variable {Double : Type} (settings : Settings Double)

def raiseOrIgnoreTriple : ParseOutcome Double := if settings.invalidLiteralsAreSkipped then .ignored else .raised

def withoutPlus (input : ByteString) : ByteString := if input.head? = some plus then input.tail else input

def parseDoubleConstant (input : ByteString) : ParseOutcome Double :=
  let input := withoutPlus input
  let (matched,isError,result) := settings.doubleFromChars input
  if matched ≠ input.length ∨ isError then raiseOrIgnoreTriple settings else .double result

/-- `std::from_chars` for `int64_t`: the number of matched characters, the error and the result, which stays 0 if there is an error. -/
def intFromChars (input : ByteString) : Nat × Option ErrorCode × Int :=
  let negative := input.head? = some minus
  let digits := (if negative then input.tail else input).takeWhile isDigit
  let value : Int := if negative then -(digitsValue digits : Int) else digitsValue digits
  if digits = [] then (0,some .invalid_argument,0)
  else ((if negative then 1 else 0) + digits.length,if FitsInt64 value then none else some .result_out_of_range,if FitsInt64 value then value else 0)

def parseIntegerConstant (input : ByteString) : ParseOutcome Double :=
  if settings.integerOverflowBehavior = .AllToDouble then parseDoubleConstant settings input
  else
    let input := withoutPlus input
    let (matched,errorCode,result) := intFromChars input
    if errorCode = some .result_out_of_range then
      if settings.integerOverflowBehavior = .OverflowingToDouble then parseDoubleConstant settings input else raiseOrIgnoreTriple settings
    else if matched ≠ input.length then raiseOrIgnoreTriple settings
    else .int result

/-- The bits of `ValueId::makeFromInt` without the datatype, and the integer that `getInt` decodes. -/
def makeFromInt (value : Int) : Nat := NBitInteger.toNBit 60 value

def getInt (bits : Nat) : Int := NBitInteger.fromNBit 60 bits

variable {value : Int}

theorem getInt_makeFromInt (atLeast : -2 ^ 59 ≤ value) (below : value < 2 ^ 59) : getInt (makeFromInt value) = value := by
  rw [getInt,makeFromInt,NBitInteger.fromNBit,NBitInteger.toNBit,BitVec.ofNat_toNat,BitVec.setWidth_eq,BitVec.toInt_ofInt]
  exact Int.bmod_eq_of_le (by omega) (by omega)

theorem not_sign_of_digits {digits : ByteString} (areDigits : ∀ c ∈ digits,isDigit c = true) (sign : UInt8) (notDigit : isDigit sign = false) :
    digits.head? ≠ some sign := by
  intro isSign
  rw [areDigits sign (List.mem_of_mem_head? isSign)] at notDigit
  cases notDigit

variable {input : ByteString}

theorem IsSigned.head_ne_plus {negative : Bool} (signed : IsSigned negative input value) : input.head? ≠ some plus := by
  obtain ⟨digits,_,areDigits,rfl,_⟩ := signed.digits
  cases negative with
  | false => exact not_sign_of_digits areDigits plus rfl
  | true => exact fun same => absurd (Option.some.inj same) (by decide)

variable {content : ByteString}

theorem withoutPlus_of_integer (isInteger : IsInteger content value) :
    ∃ negative,IsSigned negative (withoutPlus content) value := by
  rcases isInteger with signed | signed | ⟨digits,rfl,signed⟩
  · exact ⟨false,by rwa [withoutPlus,if_neg signed.head_ne_plus]⟩
  · exact ⟨true,by rwa [withoutPlus,if_neg signed.head_ne_plus]⟩
  · exact ⟨false,signed⟩

theorem intFromChars_signed {negative : Bool} (signed : IsSigned negative input value) :
    intFromChars input = (input.length,if FitsInt64 value then none else some .result_out_of_range,if FitsInt64 value then value else 0) := by
  obtain ⟨digits,nonempty,areDigits,rfl,rfl⟩ := signed.digits
  have all : digits.takeWhile isDigit = digits := List.takeWhile_eq_self_iff.mpr areDigits
  cases negative with
  | false =>
    have noMinus := not_sign_of_digits areDigits minus rfl
    simp [intFromChars,noMinus,all,nonempty]
  | true => simp [intFromChars,all,nonempty,Nat.add_comm]

theorem signed_of_intFromChars (nonempty : input ≠ []) (whole : (intFromChars input).1 = input.length) :
    ∃ negative value,IsSigned negative input value := by
  by_cases negative : input.head? = some minus
  · obtain ⟨rest,rfl⟩ := List.head?_eq_some_iff.mp negative
    by_cases noDigits : rest.takeWhile isDigit = []
    · simp [intFromChars,noDigits] at whole
    · have all : rest.takeWhile isDigit = rest := by
        refine (List.takeWhile_prefix isDigit).eq_of_length ?_
        simpa [intFromChars,noDigits,Nat.add_comm] using whole
      exact ⟨true,_,⟨rest,all ▸ noDigits,List.takeWhile_eq_self_iff.mp all,rfl,rfl⟩⟩
  · by_cases noDigits : input.takeWhile isDigit = []
    · simp only [intFromChars,negative,if_false,noDigits,if_true] at whole
      exact absurd (List.eq_nil_of_length_eq_zero whole.symm) nonempty
    · have all : input.takeWhile isDigit = input := by
        refine (List.takeWhile_prefix isDigit).eq_of_length ?_
        simpa [intFromChars,negative,noDigits] using whole
      exact ⟨false,_,⟨input,nonempty,List.takeWhile_eq_self_iff.mp all,rfl,rfl⟩⟩

variable {settings}

theorem parseDoubleConstant_integer (isInteger : IsInteger content value) (inRange : value.natAbs < 10 ^ 308) :
    ∃ result,parseDoubleConstant settings content = .double result ∧ parseDoubleConstant settings (withoutPlus content) = .double result := by
  obtain ⟨negative,signed⟩ := withoutPlus_of_integer isInteger
  obtain ⟨result,matched⟩ := settings.doubleFromChars_integer negative _ value signed inRange
  have stays : withoutPlus (withoutPlus content) = withoutPlus content := if_neg signed.head_ne_plus
  exact ⟨result,by simp [parseDoubleConstant,matched],by simp [parseDoubleConstant,stays,matched]⟩

/-- Neither an empty string, with or without a plus, nor a plus before a minus. -/
structure ReadsSigns (content : ByteString) : Prop where
  nonempty : withoutPlus content ≠ []
  oneSign : ∀ rest,content = plus :: rest → rest.head? ≠ some minus

theorem parseIntegerConstant_rejects (notAll : settings.integerOverflowBehavior ≠ .AllToDouble)
    (noInteger : ∀ value,¬ IsInteger content value) (signs : ReadsSigns content)
    (inRange : settings.integerOverflowBehavior = .Error ∨ (intFromChars (withoutPlus content)).2.1 ≠ some .result_out_of_range) :
    parseIntegerConstant settings content = raiseOrIgnoreTriple settings := by
  simp only [parseIntegerConstant,if_neg notAll]
  by_cases outOfRange : (intFromChars (withoutPlus content)).2.1 = some .result_out_of_range
  · have isError := inRange.resolve_right (not_not.mpr outOfRange)
    rw [if_pos outOfRange,if_neg (by rw [isError]; decide)]
  · rw [if_neg outOfRange,if_pos]
    intro whole
    obtain ⟨negative,value,signed⟩ := signed_of_intFromChars signs.nonempty whole
    by_cases isPlus : content.head? = some plus
    · obtain ⟨rest,rfl⟩ := List.head?_eq_some_iff.mp isPlus
      have signed : IsSigned negative rest value := signed
      cases negative with
      | false => exact noInteger value (.inr (.inr ⟨rest,rfl,signed⟩))
      | true =>
        obtain ⟨digits,_,_,same,_⟩ := signed.digits
        exact signs.oneSign rest rfl (by rw [same]; rfl)
    · rw [withoutPlus,if_neg isPlus] at signed
      cases negative with
      | false => exact noInteger value (.inl signed)
      | true => exact noInteger value (.inr (.inl signed))

end Qlever.TurtleParser
