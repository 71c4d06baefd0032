import Mathlib

/-! The Cartesian product of lists of rows, in which the first factor varies fastest, and the digits of the position of a row in it.
-/
namespace Qlever.Library
open List
variable {α : Type}

def productRows : List (List (List α)) → List (List α)
  | [] => [[]]
  | rows :: factors => (productRows factors).flatMap (fun rest => rows.map (fun row => row ++ rest))

def productSize (factors : List (List (List α))) : Nat := (factors.map List.length).prod

def rowAt : List (List (List α)) → Nat → List α
  | [],_ => []
  | rows :: factors,position => rows[position % rows.length]?.getD [] ++ rowAt factors (position / rows.length)

@[simp] theorem productSize_nil : productSize ([] : List (List (List α))) = 1 := rfl

@[simp] theorem productSize_cons (rows : List (List α)) (factors : List (List (List α))) :
    productSize (rows :: factors) = rows.length * productSize factors := prod_cons

theorem productSize_concat (factors : List (List (List α))) (rows : List (List α)) :
    productSize (factors ++ [rows]) = productSize factors * rows.length := by
  rw [productSize,map_append,prod_append]
  simp [productSize]

theorem productSize_pos {factors : List (List (List α))} (nonempty : ∀ rows ∈ factors,rows ≠ []) : 0 < productSize factors := by
  induction factors with
  | nil => exact Nat.one_pos
  | cons rows factors ih =>
    rw [productSize_cons]
    exact Nat.mul_pos (length_pos_iff.mpr (nonempty rows mem_cons_self)) (ih (forall_mem_cons.mp nonempty).2)

theorem range_mul_map {β : Type} (size count : Nat) (f : Nat → β) :
    (range (size * count)).map f = (range count).flatMap (fun group => (range size).map (fun index => f (size * group + index))) := by
  induction count with
  | zero => rfl
  | succ count ih => rw [Nat.mul_succ,range_add,map_append,ih,range_succ,flatMap_append,flatMap_singleton,map_map]; rfl

section
variable (factors : List (List (List α)))

theorem productRows_eq : productRows factors = (range (productSize factors)).map (rowAt factors) := by
  induction factors with
  | nil => rfl
  | cons rows factors ih =>
    rw [productRows,ih,productSize_cons,range_mul_map,flatMap_map]
    refine flatMap_congr (fun group _ => ?_)
    refine ext_getElem (by simp) (fun index inside _ => ?_)
    rw [length_map] at inside
    rw [getElem_map,getElem_map,getElem_range,rowAt,Nat.mul_add_mod,Nat.mod_eq_of_lt inside,
      Nat.mul_add_div (Nat.zero_lt_of_lt inside),Nat.div_eq_of_lt inside,Nat.add_zero,getElem?_eq_getElem inside,Option.getD_some]

@[simp] theorem length_productRows : (productRows factors).length = productSize factors := by
  rw [productRows_eq,length_map,length_range]

theorem productRows_concat (rows : List (List α)) :
    productRows (factors ++ [rows]) = rows.flatMap (fun row => (productRows factors).map (fun first => first ++ row)) := by
  induction factors with
  | nil => simp [productRows]
  | cons first factors ih =>
    rw [cons_append,productRows,ih,flatMap_assoc]
    refine flatMap_congr (fun row _ => ?_)
    rw [productRows,flatMap_map,map_flatMap]
    simp only [map_map,Function.comp_def,append_assoc]

theorem productRows_concat_append (rows rows' : List (List α)) :
    productRows (factors ++ [rows ++ rows']) = productRows (factors ++ [rows]) ++ productRows (factors ++ [rows']) := by
  rw [productRows_concat,productRows_concat,productRows_concat,flatMap_append]

end

end Qlever.Library
