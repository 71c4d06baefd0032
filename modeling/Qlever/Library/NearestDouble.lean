import Mathlib

/-! The value of the double that is nearest to a number that is not negative and not larger than the largest double. -/
namespace Qlever.Library.Binary64

def roundEven (number : Rat) : Int :=
  if number - ⌊number⌋ < 1 / 2 then ⌊number⌋
  else if 1 / 2 < number - ⌊number⌋ then ⌊number⌋ + 1
  else ⌊number⌋ + ⌊number⌋ % 2

def unit (number : Rat) : Rat := 2 ^ max (Int.log 2 number - 52) (-1074)

def nearest (number : Rat) : Rat := if number = 0 then 0 else roundEven (number / unit number) * unit number

theorem roundEven_error (number : Rat) : |(roundEven number : Rat) - number| ≤ 1 / 2 := by
  have atMost := Int.floor_le number
  have below := Int.lt_floor_add_one number
  rw [roundEven,abs_le]
  split
  next low => constructor <;> linarith
  next notLow =>
    split
    next high =>
      push_cast
      constructor <;> linarith
    next notHigh =>
      have atLeast : (0 : Rat) ≤ (⌊number⌋ % 2 : Int) := by exact_mod_cast Int.emod_nonneg ⌊number⌋ two_ne_zero
      have atMostOne : ((⌊number⌋ % 2 : Int) : Rat) ≤ 1 := by
        have less := Int.emod_lt_of_pos ⌊number⌋ two_pos
        exact_mod_cast Int.lt_add_one_iff.mp less
      push_cast at atLeast atMostOne ⊢
      constructor <;> linarith

variable {number : Rat}

theorem roundEven_nonneg (nonneg : 0 ≤ number) : 0 ≤ roundEven number := by
  have floor := Int.floor_nonneg.mpr nonneg
  have rest := Int.emod_nonneg ⌊number⌋ two_ne_zero
  rw [roundEven]
  split
  next => exact floor
  next => split <;> omega

theorem nearest_nonneg (nonneg : 0 ≤ number) : 0 ≤ nearest number := by
  rw [nearest]
  split
  next => exact le_refl 0
  next =>
    have positive : 0 < unit number := zpow_pos two_pos _
    have rounded : (0 : Rat) ≤ roundEven (number / unit number) := by exact_mod_cast roundEven_nonneg (div_nonneg nonneg positive.le)
    exact mul_nonneg rounded positive.le

theorem nearest_error (normal : 2 ^ (-1022 : Int) ≤ number) : |nearest number - number| ≤ number / 2 ^ 53 := by
  have positive : 0 < number := lt_of_lt_of_le (zpow_pos two_pos _) normal
  have exponent := (Int.zpow_le_iff_le_log one_lt_two positive).mp (by exact_mod_cast normal)
  have isUnit : unit number = 2 ^ Int.log 2 number / 2 ^ 52 := by
    rw [unit,max_eq_left (by omega),zpow_sub₀ two_ne_zero]
    norm_num
  have unitPositive : 0 < unit number := zpow_pos two_pos _
  have power : (2 : Rat) ^ Int.log 2 number ≤ number := by exact_mod_cast Int.zpow_log_le_self one_lt_two positive
  have error := roundEven_error (number / unit number)
  have scaled : nearest number - number = (roundEven (number / unit number) - number / unit number) * unit number := by
    rw [nearest,if_neg positive.ne',sub_mul,div_mul_cancel₀ _ unitPositive.ne']
  calc |nearest number - number| = |(roundEven (number / unit number) : Rat) - number / unit number| * unit number := by
        rw [scaled,abs_mul,abs_of_pos unitPositive]
    _ ≤ 1 / 2 * unit number := mul_le_mul_of_nonneg_right error unitPositive.le
    _ ≤ number / 2 ^ 53 := by
        rw [isUnit]
        linarith

theorem round_eq_of_near {whole : Int} (near : |number - whole| < 1 / 2) : round number = whole := by
  obtain ⟨above,below⟩ := abs_lt.mp near
  rw [round_eq,Int.floor_eq_iff]
  constructor <;> linarith

theorem le_normal : (2 : Rat) ^ (-1022 : Int) ≤ 1 / 2 ^ 50 := (zpow_le_zpow_right₀ one_le_two (by decide : (-1022 : Int) ≤ -50)).trans (by norm_num)

theorem nearest_div_mul_error (count : Nat) {size : Nat} (positive : 0 < size) (sizeSmall : size < 2 ^ 50) :
    |nearest (count / size) * size - count| ≤ count / 2 ^ 53 := by
  obtain rfl | countPositive := Nat.eq_zero_or_pos count
  · simp [nearest]
  have sizePositive : (0 : Rat) < size := by exact_mod_cast positive
  have isSizeSmall : (size : Rat) < 2 ^ 50 := by exact_mod_cast sizeSmall
  have atLeastOne : (1 : Rat) ≤ count := by exact_mod_cast countPositive
  have quotient : (2 : Rat) ^ (-1022 : Int) ≤ count / size := by
    refine le_normal.trans ?_
    rw [div_le_div_iff₀ (by norm_num) sizePositive]
    nlinarith
  have first := nearest_error quotient
  have scaled : nearest (count / size) * size - count = (nearest (count / size) - count / size) * size := by
    rw [sub_mul,div_mul_cancel₀ _ sizePositive.ne']
  calc |nearest (count / size) * size - count| = |nearest (count / size) - count / size| * size := by
        rw [scaled,abs_mul,abs_of_pos sizePositive]
    _ ≤ count / size / 2 ^ 53 * size := mul_le_mul_of_nonneg_right first sizePositive.le
    _ = count / 2 ^ 53 := by
        field_simp

theorem round_nearest_mul_nearest_div {count size : Nat} (small : count < 2 ^ 50) (positive : 0 < size) (sizeSmall : size < 2 ^ 50) :
    round (nearest (nearest (count / size) * size)) = (count : Int) := by
  obtain rfl | countPositive := Nat.eq_zero_or_pos count
  · simp [nearest]
  have isSmall : (count : Rat) < 2 ^ 50 := by exact_mod_cast small
  have atLeastOne : (1 : Rat) ≤ count := by exact_mod_cast countPositive
  obtain ⟨productAbove,productBelow⟩ := abs_le.mp (nearest_div_mul_error count positive sizeSmall)
  have normal : (2 : Rat) ^ (-1022 : Int) ≤ nearest (count / size) * size := by
    refine le_normal.trans ?_
    linarith
  obtain ⟨above,below⟩ := abs_le.mp (nearest_error normal)
  apply round_eq_of_near
  rw [Int.cast_natCast,abs_lt]
  constructor <;> linarith

end Qlever.Library.Binary64
