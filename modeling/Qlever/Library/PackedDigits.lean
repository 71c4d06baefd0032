import Mathlib

/-! Numbers of a fixed number of bits, packed into one number from the least significant end. With a width of 8 these are the bytes of a
little-endian number.
-/
namespace Qlever.Library.PackedDigits
open List
variable {width : Nat}

def pack (width : Nat) : List Nat → Nat
  | [] => 0
  | digit :: digits => digit + 2 ^ width * pack width digits

def unpack (width : Nat) : Nat → Nat → List Nat
  | 0,_ => []
  | count + 1,n => n % 2 ^ width :: unpack width count (n / 2 ^ width)

@[simp] theorem length_unpack (count n : Nat) : (unpack width count n).length = count := by
  induction count generalizing n with
  | zero => rfl
  | succ count ih => rw [unpack,length_cons,ih]

theorem unpack_zero (count : Nat) : unpack width count 0 = replicate count 0 := by
  induction count with
  | zero => rfl
  | succ count ih => rw [unpack,Nat.zero_mod,Nat.zero_div,ih,replicate_succ]

variable {digits : List Nat}

theorem unpack_pack (small : ∀ digit ∈ digits,digit < 2 ^ width) {count : Nat} (room : digits.length ≤ count) :
    unpack width count (pack width digits) = digits ++ replicate (count - digits.length) 0 := by
  induction digits generalizing count with
  | nil => exact unpack_zero count
  | cons digit digits ih =>
    obtain ⟨smallDigit,smallDigits⟩ := forall_mem_cons.mp small
    obtain ⟨count,rfl⟩ : ∃ rest,count = rest + 1 := ⟨count - 1,by rw [length_cons] at room; omega⟩
    have low : (digit + 2 ^ width * pack width digits) % 2 ^ width = digit := by
      rw [Nat.add_mul_mod_self_left,Nat.mod_eq_of_lt smallDigit]
    have high : (digit + 2 ^ width * pack width digits) / 2 ^ width = pack width digits := by
      rw [Nat.add_mul_div_left _ _ (Nat.two_pow_pos width),Nat.div_eq_of_lt smallDigit,Nat.zero_add]
    rw [pack,unpack,low,high,ih smallDigits (by simpa using room),length_cons,Nat.add_sub_add_right]
    rfl

theorem pack_unpack {count n : Nat} (small : n < 2 ^ (width * count)) : pack width (unpack width count n) = n := by
  induction count generalizing n with
  | zero =>
    rw [Nat.mul_zero,Nat.pow_zero,Nat.lt_one_iff] at small
    exact small.symm
  | succ count ih =>
    have smaller : n / 2 ^ width < 2 ^ (width * count) := by
      rw [Nat.div_lt_iff_lt_mul (Nat.two_pow_pos width),← Nat.pow_add]
      exact small
    rw [unpack,pack,ih smaller]
    exact Nat.mod_add_div n (2 ^ width)

theorem pack_lt (small : ∀ digit ∈ digits,digit < 2 ^ width) : pack width digits < 2 ^ (width * digits.length) := by
  induction digits with
  | nil => exact Nat.one_pos
  | cons digit digits ih =>
    obtain ⟨smallDigit,smallDigits⟩ := forall_mem_cons.mp small
    have below := ih smallDigits
    calc digit + 2 ^ width * pack width digits < 2 ^ width + 2 ^ width * pack width digits := Nat.add_lt_add_right smallDigit _
      _ = 2 ^ width * (pack width digits + 1) := by ring
      _ ≤ 2 ^ width * 2 ^ (width * digits.length) := Nat.mul_le_mul_left _ below
      _ = 2 ^ (width * (digit :: digits).length) := by rw [← Nat.pow_add,length_cons]; congr 1; ring

theorem pack_concat (digits : List Nat) (digit : Nat) : pack width (digits ++ [digit]) = pack width digits + 2 ^ (width * digits.length) * digit := by
  induction digits with
  | nil => simp [pack]
  | cons first digits ih =>
    rw [cons_append,pack,ih,pack,length_cons,Nat.mul_succ,Nat.pow_add]
    ring

def readGroups (size : Nat) : Nat → List Nat → List Nat
  | 0,_ => []
  | count + 1,bytes => pack 8 (bytes.take size) :: readGroups size count (bytes.drop size)

theorem readGroups_flatMap {size : Nat} {numbers : List Nat} (small : ∀ n ∈ numbers,n < 2 ^ (8 * size)) (more : List Nat) :
    readGroups size numbers.length (numbers.flatMap (unpack 8 size) ++ more) = numbers := by
  induction numbers with
  | nil => rfl
  | cons n numbers ih =>
    obtain ⟨smallFirst,smallRest⟩ := forall_mem_cons.mp small
    have length : (unpack 8 size n).length = size := length_unpack size n
    rw [length_cons,readGroups,flatMap_cons,append_assoc,take_left' length,drop_left' length,ih smallRest,
      pack_unpack smallFirst]

theorem length_flatMap_unpack (size : Nat) (numbers : List Nat) : (numbers.flatMap (unpack 8 size)).length = size * numbers.length := by
  induction numbers with
  | nil => rfl
  | cons n numbers ih => rw [flatMap_cons,length_append,length_unpack,ih,length_cons,Nat.mul_succ,Nat.add_comm]

end Qlever.Library.PackedDigits
