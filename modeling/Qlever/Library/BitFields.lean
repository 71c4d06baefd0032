import Mathlib

/-! Words that are packed from bit fields, the most significant field first. The order of such words is the lexicographical order of the fields,
and a field is read back by a shift and a mask.
-/
namespace Qlever.Library.BitFields
variable {widths values others : List Nat}

def pack : List Nat → List Nat → Nat
  | _::widths,value::values => value * 2 ^ widths.sum + pack widths values
  | _,_ => 0

def Fits (widths values : List Nat) : Prop := List.Forall₂ (fun width value => value < 2 ^ width) widths values

def unpack : List Nat → Nat → List Nat
  | [],_ => []
  | width::widths,word => word / 2 ^ widths.sum % 2 ^ width::unpack widths word

theorem pack_lt (fits : Fits widths values) : pack widths values < 2 ^ widths.sum := by
  induction fits with
  | nil => simp [pack]
  | @cons width value widths values fitsFirst _ ih =>
    rw [pack,List.sum_cons,pow_add]
    calc value * 2 ^ widths.sum + pack widths values
        < value * 2 ^ widths.sum + 2 ^ widths.sum := Nat.add_lt_add_left ih _
      _ = (value + 1) * 2 ^ widths.sum := by ring
      _ ≤ 2 ^ width * 2 ^ widths.sum := Nat.mul_le_mul_right _ fitsFirst

theorem mul_add_lt_iff {size high high' low low' : Nat} (small : low < size) (small' : low' < size) :
    high * size + low < high' * size + low' ↔ high < high' ∨ high = high' ∧ low < low' := by
  obtain less | rfl | more := lt_trichotomy high high'
  · have step : (high + 1) * size ≤ high' * size := Nat.mul_le_mul_right _ less
    rw [Nat.add_mul,Nat.one_mul] at step
    simp only [less,true_or,iff_true]
    omega
  · simp
  · have step : (high' + 1) * size ≤ high * size := Nat.mul_le_mul_right _ more
    rw [Nat.add_mul,Nat.one_mul] at step
    simp only [more.not_gt,more.ne',false_and,or_self,iff_false]
    omega

theorem pack_lt_iff (fits : Fits widths values) (fitsOthers : Fits widths others) : pack widths values < pack widths others ↔ values < others := by
  induction fits generalizing others with
  | nil =>
    cases fitsOthers
    simp [pack]
  | @cons width value widths values _ fitsRest ih =>
    cases fitsOthers with
    | @cons _ other _ others _ fitsOthers =>
      rw [pack,pack,mul_add_lt_iff (pack_lt fitsRest) (pack_lt fitsOthers),ih fitsOthers,List.cons_lt_cons_iff]

theorem unpack_add_mul (widths : List Nat) (word above : Nat) : unpack widths (above * 2 ^ widths.sum + word) = unpack widths word := by
  induction widths generalizing above with
  | nil => rfl
  | cons width widths ih =>
    have split : above * 2 ^ (width::widths).sum + word = above * 2 ^ width * 2 ^ widths.sum + word := by
      rw [List.sum_cons,pow_add,Nat.mul_assoc]
    rw [split,unpack,unpack,ih,Nat.mul_comm (above * 2 ^ width),Nat.mul_add_div (Nat.two_pow_pos _),Nat.mul_comm above,Nat.mul_add_mod]

theorem unpack_pack (fits : Fits widths values) : unpack widths (pack widths values) = values := by
  induction fits with
  | nil => rfl
  | @cons width value widths values fitsFirst fitsRest ih =>
    rw [pack,unpack,unpack_add_mul,ih,Nat.mul_comm,Nat.mul_add_div (Nat.two_pow_pos _),Nat.div_eq_of_lt (pack_lt fitsRest),Nat.add_zero,
      Nat.mod_eq_of_lt fitsFirst]

theorem zipWith_lt_zipWith_iff {ι α β : Type} [LinearOrder α] [LinearOrder β] {f : ι → α → β} (mono : ∀ i,StrictMono (f i)) {is : List ι}
    {xs ys : List α} (length : xs.length = is.length) (length' : ys.length = is.length) : List.zipWith f is xs < List.zipWith f is ys ↔ xs < ys := by
  induction is generalizing xs ys with
  | nil =>
    rw [List.length_eq_zero_iff.mp length,List.length_eq_zero_iff.mp length']
    simp
  | cons i is ih =>
    cases xs with
    | nil => cases length
    | cons x xs =>
      cases ys with
      | nil => cases length'
      | cons y ys =>
        rw [List.zipWith_cons_cons,List.zipWith_cons_cons,List.cons_lt_cons_iff,List.cons_lt_cons_iff,(mono i).lt_iff_lt,(mono i).injective.eq_iff,
          ih (Nat.succ.inj length) (Nat.succ.inj length')]

end Qlever.Library.BitFields
