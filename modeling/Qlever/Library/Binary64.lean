import Mathlib

/-! Doubles as the bit patterns of IEEE 754: one bit for the sign, eleven for the exponent and 52 for the mantissa.
Two patterns that are not NaN compare like their magnitudes with sign.
-/
namespace Qlever.Library.Binary64
open Nat

def isNegative (bits : Nat) : Bool := decide (2 ^ 63 ≤ bits)

def magnitude (bits : Nat) : Nat := bits % 2 ^ 63

def isNan (bits : Nat) : Bool := decide (2047 * 2 ^ 52 < magnitude bits)

def key (bits : Nat) : Int := if isNegative bits then -(magnitude bits : Int) else magnitude bits

def compare (first second : Nat) : Option Ordering :=
  if isNan first || isNan second then none else some (cmp (key first) (key second))

/-- The mantissa of a natural number with its leading one, rounded to the nearest with ties to even. -/
def significand (n : Nat) : Nat :=
  let exponent := log 2 n
  if exponent ≤ 52 then n * 2 ^ (52 - exponent)
  else
    let shift := exponent - 52
    let quotient := n / 2 ^ shift
    let remainder := n % 2 ^ shift
    let half := 2 ^ (shift - 1)
    if half < remainder ∨ (remainder = half ∧ quotient % 2 = 1) then quotient + 1 else quotient

/-- The nearest double. A significand that is rounded up to the next power of two carries into the exponent. -/
def ofNat (n : Nat) : Nat := if n = 0 then 0 else (log 2 n + 1022) * 2 ^ 52 + significand n

def ofInt (i : Int) : Nat := if i < 0 then 2 ^ 63 + ofNat i.natAbs else ofNat i.natAbs

variable {n : Nat}

theorem significand_bounds (positive : n ≠ 0) : 2 ^ 52 ≤ significand n ∧ significand n ≤ 2 ^ 53 := by
  have lower := pow_log_le_self 2 positive
  have upper := lt_pow_succ_log_self (b := 2) (by decide) n
  simp only [significand]
  split
  next small =>
    constructor
    · calc 2 ^ 52 = 2 ^ log 2 n * 2 ^ (52 - log 2 n) := by rw [← pow_add,Nat.add_sub_cancel' small]
        _ ≤ n * 2 ^ (52 - log 2 n) := Nat.mul_le_mul_right _ lower
    · calc n * 2 ^ (52 - log 2 n) ≤ 2 ^ (log 2 n + 1) * 2 ^ (52 - log 2 n) := Nat.mul_le_mul_right _ upper.le
        _ = 2 ^ 53 := by rw [← pow_add]; congr 1; omega
  next large =>
    have split : 2 ^ log 2 n = 2 ^ 52 * 2 ^ (log 2 n - 52) := by rw [← pow_add]; congr 1; omega
    have atLeast : 2 ^ 52 ≤ n / 2 ^ (log 2 n - 52) := by
      rw [Nat.le_div_iff_mul_le (Nat.two_pow_pos _),← split]
      exact lower
    have below : n / 2 ^ (log 2 n - 52) < 2 ^ 53 := by
      rw [Nat.div_lt_iff_lt_mul (Nat.two_pow_pos _)]
      calc n < 2 ^ (log 2 n + 1) := upper
        _ = 2 ^ 53 * 2 ^ (log 2 n - 52) := by rw [← pow_add]; congr 1; omega
    split <;> omega

theorem significand_mono {m : Nat} (le : n ≤ m) (same : log 2 n = log 2 m) : significand n ≤ significand m := by
  unfold significand
  simp only [same]
  split
  · exact Nat.mul_le_mul_right _ le
  next large =>
    generalize shiftEq : log 2 m - 52 = shift
    have quotient : n / 2 ^ shift ≤ m / 2 ^ shift := Nat.div_le_div_right le
    rcases Nat.lt_or_eq_of_le quotient with less | equal
    · split <;> split <;> omega
    · -- The quotients are the same, so the remainders are in order.
      have remainder : n % 2 ^ shift ≤ m % 2 ^ shift := by
        have first := div_add_mod n (2 ^ shift)
        have second := div_add_mod m (2 ^ shift)
        rw [equal] at first
        omega
      rw [equal]
      split <;> split <;> omega

theorem ofNat_mono {m : Nat} (le : n ≤ m) : ofNat n ≤ ofNat m := by
  unfold ofNat
  by_cases zero : n = 0
  · simp [zero]
  · have positive : m ≠ 0 := by omega
    rw [if_neg zero,if_neg positive]
    have first := significand_bounds zero
    have second := significand_bounds positive
    rcases Nat.lt_or_eq_of_le (log_mono_right (b := 2) le) with less | same
    · have exponents : (log 2 n + 1) * 2 ^ 52 ≤ log 2 m * 2 ^ 52 := Nat.mul_le_mul_right _ less
      linarith [first.2,second.1]
    · have significands := significand_mono le same
      rw [same]
      omega

theorem ofNat_pos (positive : 0 < n) : 0 < ofNat n := by
  have bounds := significand_bounds positive.ne'
  rw [ofNat,if_neg positive.ne']
  omega

theorem ofNat_le (small : n < 2 ^ 64) : ofNat n ≤ 2047 * 2 ^ 52 := by
  unfold ofNat
  split
  · omega
  next positive =>
    have bounds := significand_bounds positive
    have exponent : log 2 n < 64 := log_lt_of_lt_pow positive small
    have exponents : (log 2 n + 1) * 2 ^ 52 ≤ 64 * 2 ^ 52 := Nat.mul_le_mul_right _ exponent
    linarith [bounds.2]

section Integers
variable {i j : Int}

theorem key_ofInt (small : i.natAbs < 2 ^ 64) : key (ofInt i) = if i < 0 then -(ofNat i.natAbs : Int) else ofNat i.natAbs := by
  have bound := ofNat_le small
  unfold key ofInt isNegative magnitude
  split
  · rw [if_pos (by simp),add_mod_left,mod_eq_of_lt (by omega)]
  · rw [if_neg (by simp; omega),mod_eq_of_lt (by omega)]

theorem isNan_ofInt (small : i.natAbs < 2 ^ 64) : isNan (ofInt i) = false := by
  have bound := ofNat_le small
  unfold isNan ofInt magnitude
  split
  · rw [add_mod_left,mod_eq_of_lt (by omega)]
    exact decide_eq_false (by omega)
  · rw [mod_eq_of_lt (by omega)]
    exact decide_eq_false (by omega)

theorem key_ofInt_mono (le : i ≤ j) (smallFirst : i.natAbs < 2 ^ 64) (smallSecond : j.natAbs < 2 ^ 64) : key (ofInt i) ≤ key (ofInt j) := by
  rw [key_ofInt smallFirst,key_ofInt smallSecond]
  split <;> split
  · have reversed : ofNat j.natAbs ≤ ofNat i.natAbs := ofNat_mono (by omega)
    omega
  · omega
  · omega
  · have ordered : ofNat i.natAbs ≤ ofNat j.natAbs := ofNat_mono (by omega)
    omega

theorem key_ofInt_pos (positive : 0 < i) (small : i.natAbs < 2 ^ 64) : 0 < key (ofInt i) := by
  rw [key_ofInt small,if_neg (by omega)]
  exact Int.natCast_pos.mpr (ofNat_pos (by omega))

theorem key_ofInt_neg (negative : i < 0) (small : i.natAbs < 2 ^ 64) : key (ofInt i) < 0 := by
  have positive := ofNat_pos (n := i.natAbs) (by omega)
  rw [key_ofInt small,if_pos negative]
  omega

end Integers
end Qlever.Library.Binary64
