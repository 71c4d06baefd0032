import Mathlib

/-! The nested loop over two lists, filtered by a relation. It is the reference
for every join: as multisets, all the ways to split or to swap the two loops
agree, which is seen by counting.
-/
namespace Qlever.Library
open List
variable {α β : Type}

def nestedLoop (rel : α → β → Bool) (xs : List α) (ys : List β) : List (α × β) :=
  xs.flatMap (fun x => (ys.filter (rel x)).map (Prod.mk x))

theorem count_of_mem_iff [BEq α] [LawfulBEq α] {x : α} {xs : List α} {test : Bool} (nodup : xs.Nodup)
    (member : x ∈ xs ↔ test = true) : xs.count x = if test then 1 else 0 := by
  cases test with
  | true => exact count_eq_one_of_mem nodup (member.mpr rfl)
  | false => exact count_eq_zero_of_not_mem (fun present => Bool.noConfusion (member.mp present))

section Count
variable [DecidableEq α] [DecidableEq β]

theorem count_map_mk (x a : α) (ys : List β) (b : β) :
    (ys.map (Prod.mk x)).count (a,b) = if x = a then ys.count b else 0 := by
  split_ifs with same
  · subst same
    exact count_map_of_injective ys (Prod.mk x) (Prod.mk_right_injective x) b
  · apply count_eq_zero_of_not_mem
    intro member
    obtain ⟨y,_,equal⟩ := List.mem_map.mp member
    exact same (Prod.ext_iff.mp equal).1

theorem count_nestedLoop (rel : α → β → Bool) (xs : List α) (ys : List β) (a : α) (b : β) :
    (nestedLoop rel xs ys).count (a,b) = if rel a b then xs.count a * ys.count b else 0 := by
  induction xs with
  | nil => simp [nestedLoop]
  | cons x xs ih =>
    have step : nestedLoop rel (x::xs) ys = (ys.filter (rel x)).map (Prod.mk x) ++ nestedLoop rel xs ys := rfl
    rw [step,count_append,count_map_mk,ih]
    by_cases same : x = a
    · subst same
      by_cases related : rel x b
      · simp [related,List.count_filter,Nat.add_mul,Nat.add_comm]
      · have none : List.count b (ys.filter (rel x)) = 0 := by
          apply count_eq_zero_of_not_mem
          simp [related]
        simp [related,none]
    · simp [same]

end Count

section
variable (rel : α → β → Bool) (xs : List α) (ys : List β)

theorem mem_nestedLoop (a : α) (b : β) :
    (a,b) ∈ nestedLoop rel xs ys ↔ a ∈ xs ∧ b ∈ ys ∧ rel a b := by
  simp [nestedLoop,mem_flatMap]

theorem nodup_nestedLoop (left : xs.Nodup) (right : ys.Nodup) :
    (nestedLoop rel xs ys).Nodup := by
  classical
  rw [nodup_iff_count_le_one] at left right ⊢
  rintro ⟨a,b⟩
  rw [count_nestedLoop]
  split_ifs
  · simpa using Nat.mul_le_mul (left a) (right b)
  · exact Nat.zero_le 1

theorem nestedLoop_swap :
    (ys.flatMap (fun y => (xs.filter (rel · y)).map (fun x => (x,y)))).Perm (nestedLoop rel xs ys) := by
  classical
  have swapped : ys.flatMap (fun y => (xs.filter (rel · y)).map (fun x => (x,y))) =
      (nestedLoop (fun y x => rel x y) ys xs).map Prod.swap := by
    simp [nestedLoop,map_flatMap,Function.comp_def]
  rw [swapped,perm_iff_count]
  rintro ⟨a,b⟩
  have back := count_map_of_injective (nestedLoop (fun y x => rel x y) ys xs) Prod.swap
    Prod.swap_injective (b,a)
  simp only [Prod.swap_prod_mk] at back
  rw [back,count_nestedLoop,count_nestedLoop,Nat.mul_comm]

end

section
variable (first second : α → β → Bool) (xs : List α) (ys : List β)

theorem nestedLoop_or (disjoint : ∀ x ∈ xs, ∀ y ∈ ys, ¬ (first x y ∧ second x y)) :
    (nestedLoop (fun x y => first x y || second x y) xs ys).Perm
      (nestedLoop first xs ys ++ nestedLoop second xs ys) := by
  classical
  rw [perm_iff_count]
  rintro ⟨a,b⟩
  rw [count_append,count_nestedLoop,count_nestedLoop,count_nestedLoop]
  by_cases present : a ∈ xs ∧ b ∈ ys
  · have apart := disjoint a present.1 b present.2
    cases hf : first a b <;> cases hs : second a b <;> simp_all
  · have zero : xs.count a * ys.count b = 0 := by
      rw [Nat.mul_eq_zero,count_eq_zero,count_eq_zero]
      tauto
    simp [zero]

theorem nestedLoop_congr (same : ∀ x ∈ xs, ∀ y ∈ ys, first x y = second x y) :
    nestedLoop first xs ys = nestedLoop second xs ys := by
  unfold nestedLoop
  apply flatMap_congr
  intro x member
  rw [filter_congr (same x member)]

end

variable (rel : α → β → Bool)

theorem nestedLoop_append_left (xs xs' : List α) (ys : List β) :
    nestedLoop rel (xs ++ xs') ys = nestedLoop rel xs ys ++ nestedLoop rel xs' ys := by
  simp [nestedLoop]

theorem nestedLoop_append_right (xs : List α) (ys ys' : List β) :
    (nestedLoop rel xs (ys ++ ys')).Perm (nestedLoop rel xs ys ++ nestedLoop rel xs ys') := by
  simp only [nestedLoop,filter_append,map_append]
  exact (flatMap_append_perm xs _ _).symm

theorem nestedLoop_map {γ δ : Type} (rel : γ → δ → Bool) (f : α → γ) (g : β → δ) (xs : List α) (ys : List β) :
    nestedLoop rel (xs.map f) (ys.map g) = (nestedLoop (fun x y => rel (f x) (g y)) xs ys).map (Prod.map f g) := by
  simp [nestedLoop,flatMap_map,map_flatMap,filter_map,Function.comp_def]

theorem nestedLoop_false (xs : List α) (ys : List β)
    (never : ∀ x ∈ xs, ∀ y ∈ ys, rel x y = false) : nestedLoop rel xs ys = [] := by
  simp only [nestedLoop,flatMap_eq_nil_iff,map_eq_nil_iff,filter_eq_nil_iff]
  intro x hx y hy
  simp [never x hx y hy]

theorem flatMap_filter_of_nil (p : α → Bool) (f : α → List β) (xs : List α)
    (nil : ∀ x ∈ xs, p x = false → f x = []) : (xs.filter p).flatMap f = xs.flatMap f := by
  induction xs with
  | nil => rfl
  | cons x xs ih =>
    have rest := ih (forall_mem_cons.mp nil).2
    cases keep : p x with
    | false => simp [keep,rest,nil x mem_cons_self keep]
    | true => simp [keep,rest]

theorem flatMap_if_singleton (p : α → Bool) (f : α → β) (xs : List α) :
    xs.flatMap (fun x => if p x then [f x] else []) = (xs.filter p).map f := by
  induction xs with
  | nil => rfl
  | cons x xs ih =>
    cases keep : p x <;> simp [keep,ih]

end Qlever.Library
