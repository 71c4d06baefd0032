import Mathlib

/-! Single-precision floats as the bit patterns of IEEE 754: one bit for the sign, eight for the exponent and 23 for the mantissa.
-/
namespace Qlever.Library.Binary32
open Nat

def ofNat (n : Nat) : Nat := if n = 0 then 0 else (log 2 n + 126) * 2 ^ 23 + n * 2 ^ (23 - log 2 n)

def truncate (bits : Nat) : Nat :=
  let exponent := bits / 2 ^ 23 % 256
  let significand := 2 ^ 23 + bits % 2 ^ 23
  if exponent < 127 then 0
  else if exponent ≤ 150 then significand / 2 ^ (150 - exponent)
  else significand * 2 ^ (exponent - 150)

def toBinary64 (bits : Nat) : Nat :=
  let sign := bits / 2 ^ 31
  let exponent := bits / 2 ^ 23 % 256
  let mantissa := bits % 2 ^ 23
  let magnitude :=
    if exponent = 255 then 2047 * 2 ^ 52 + mantissa * 2 ^ 29
    else if exponent ≠ 0 then (exponent + 896) * 2 ^ 52 + mantissa * 2 ^ 29
    else if mantissa = 0 then 0
    else (log 2 mantissa + 873) * 2 ^ 52 + mantissa * 2 ^ (52 - log 2 mantissa)
  sign * 2 ^ 63 + magnitude

theorem significand_bounds {n : Nat} (positive : n ≠ 0) (small : n < 2 ^ 24) :
    log 2 n < 24 ∧ 2 ^ 23 ≤ n * 2 ^ (23 - log 2 n) ∧ n * 2 ^ (23 - log 2 n) < 2 ^ 24 := by
  have exponent : log 2 n < 24 := log_lt_of_lt_pow positive small
  refine ⟨exponent,?_,?_⟩
  · calc 2 ^ 23 = 2 ^ log 2 n * 2 ^ (23 - log 2 n) := by rw [← Nat.pow_add]; congr 1; omega
      _ ≤ n * 2 ^ (23 - log 2 n) := Nat.mul_le_mul_right _ (pow_log_le_self 2 positive)
  · calc n * 2 ^ (23 - log 2 n) < 2 ^ (log 2 n + 1) * 2 ^ (23 - log 2 n) :=
          Nat.mul_lt_mul_of_pos_right (lt_pow_succ_log_self (by decide) n) (Nat.two_pow_pos _)
      _ = 2 ^ 24 := by rw [← Nat.pow_add]; congr 1; omega

theorem truncate_ofNat {n : Nat} (small : n < 2 ^ 24) : truncate (ofNat n) = n := by
  rcases eq_or_ne n 0 with rfl | positive
  · decide
  · obtain ⟨exponentLt,lower,upper⟩ := significand_bounds positive small
    have exponent : ofNat n / 2 ^ 23 % 256 = log 2 n + 127 := by
      rw [ofNat,if_neg positive]
      omega
    have significand : 2 ^ 23 + ofNat n % 2 ^ 23 = n * 2 ^ (23 - log 2 n) := by
      rw [ofNat,if_neg positive]
      omega
    rw [truncate,exponent,significand]
    rw [if_neg (by omega),if_pos (by omega),show 150 - (log 2 n + 127) = 23 - log 2 n by omega]
    exact Nat.mul_div_cancel n (Nat.two_pow_pos _)

theorem toBinary64_mod (bits : Nat) : toBinary64 bits % 2 ^ 4 = 0 := by
  have subnormal : bits % 2 ^ 23 ≠ 0 → bits % 2 ^ 23 * 2 ^ (52 - log 2 (bits % 2 ^ 23)) % 2 ^ 4 = 0 := by
    intro positive
    have exponent : log 2 (bits % 2 ^ 23) < 23 := log_lt_of_lt_pow positive (mod_lt _ (Nat.two_pow_pos 23))
    have split : 2 ^ (52 - log 2 (bits % 2 ^ 23)) = 2 ^ 4 * 2 ^ (48 - log 2 (bits % 2 ^ 23)) := by
      rw [← Nat.pow_add]
      congr 1
      omega
    rw [split,Nat.mul_left_comm,mul_mod_right]
  unfold toBinary64
  simp only
  split
  next => omega
  next =>
    split
    next => omega
    next =>
      split
      next => omega
      next positive =>
        have low := subnormal positive
        omega

end Qlever.Library.Binary32
