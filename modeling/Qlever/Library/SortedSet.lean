import Mathlib

/-! Sorted lists as sets, with elements that are compared by a key. -/
namespace Qlever.Library
open List
variable {α K : Type}

/-- `std::unique`: of consecutive elements that are the same, only the first one is kept. -/
def unique (same : α → α → Bool) : List α → List α
  | [] => []
  | [x] => [x]
  | x::y::rest => if same x y then unique same (x::rest) else x::unique same (y::rest)
termination_by xs => xs.length

/-- `std::set_difference`. -/
def setDifference (less : α → α → Bool) : List α → List α → List α
  | [],_ => []
  | x::xs,[] => x::xs
  | x::xs,y::ys =>
    if less x y then x::setDifference less xs (y::ys)
    else if less y x then setDifference less (x::xs) ys
    else setDifference less xs ys
termination_by xs ys => xs.length + ys.length

section Unique
variable {key : α → K} {same : α → α → Bool} (isSame : ∀ x y,same x y = true ↔ key x = key y)
include isSame

omit isSame in
theorem unique_eq_self {xs : List α} (different : xs.Pairwise (fun x y => same x y = false)) : unique same xs = xs := by
  induction xs using unique.induct same with
  | case1 | case2 x => simp [unique]
  | case3 x y rest equal ih =>
    have distinct := (pairwise_cons.mp different).1 y mem_cons_self
    exact absurd (equal.symm.trans distinct) (by simp)
  | case4 x y rest distinct ih => rw [unique,if_neg distinct,ih (pairwise_cons.mp different).2]

omit isSame in
theorem unique_sublist (xs : List α) : (unique same xs).Sublist xs := by
  induction xs using unique.induct same with
  | case1 | case2 x => simp [unique]
  | case3 x y rest equal ih =>
    rw [unique,if_pos equal]
    exact ih.trans (((sublist_cons_self y rest)).cons_cons x)
  | case4 x y rest different ih =>
    rw [unique,if_neg different]
    exact ih.cons_cons x

theorem mem_keys_unique (xs : List α) (k : K) : k ∈ (unique same xs).map key ↔ k ∈ xs.map key := by
  induction xs using unique.induct same with
  | case1 | case2 x => simp [unique]
  | case3 x y rest equal ih =>
    rw [unique,if_pos equal,ih]
    simp only [map_cons,mem_cons,(isSame x y).mp equal]
    tauto
  | case4 x y rest different ih =>
    rw [unique,if_neg different,map_cons,mem_cons,ih]
    simp

theorem unique_strict [LinearOrder K] {xs : List α} (sorted : xs.Pairwise (fun x y => key x ≤ key y)) :
    (unique same xs).Pairwise (fun x y => key x < key y) := by
  induction xs using unique.induct same with
  | case1 | case2 x => simp [unique]
  | case3 x y rest equal ih =>
    rw [unique,if_pos equal]
    exact ih (sorted.sublist ((sublist_cons_self y rest).cons_cons x))
  | case4 x y rest different ih =>
    rw [unique,if_neg different]
    obtain ⟨first,tail⟩ := pairwise_cons.mp sorted
    refine pairwise_cons.mpr ⟨?_,ih tail⟩
    intro z member
    -- All later elements are at least as large as the second one, which is larger than the first one.
    have isLater := (unique_sublist (y::rest)).subset member
    have less : key x < key y := lt_of_le_of_ne (first y mem_cons_self) (mt (isSame x y).mpr different)
    rcases mem_cons.mp isLater with rfl | later
    · exact less
    · exact less.trans_le ((pairwise_cons.mp tail).1 z later)

end Unique

section SetDifference
variable {key : α → K} [LinearOrder K] {less : α → α → Bool} (isLess : ∀ x y,less x y = true ↔ key x < key y)
include isLess

omit [LinearOrder K] isLess in
theorem setDifference_sublist (xs ys : List α) : (setDifference less xs ys).Sublist xs := by
  induction xs,ys using setDifference.induct less with
  | case1 ys | case2 x xs => simp [setDifference]
  | case3 x xs y ys smaller ih =>
    rw [setDifference,if_pos smaller]
    exact ih.cons_cons x
  | case4 x xs y ys notSmaller larger ih =>
    rw [setDifference,if_neg notSmaller,if_pos larger]
    exact ih
  | case5 x xs y ys notSmaller notLarger ih =>
    rw [setDifference,if_neg notSmaller,if_neg notLarger]
    exact ih.trans (sublist_cons_self x xs)

theorem mem_keys_setDifference {xs ys : List α} (sorted : xs.Pairwise (fun x y => key x < key y)) (sorted' : ys.Pairwise (fun x y => key x < key y))
    (k : K) : k ∈ (setDifference less xs ys).map key ↔ k ∈ xs.map key ∧ k ∉ ys.map key := by
  induction xs,ys using setDifference.induct less with
  | case1 ys | case2 x xs => simp [setDifference]
  | case3 x xs y ys smaller ih =>
    rw [setDifference,if_pos smaller,map_cons,mem_cons,ih (pairwise_cons.mp sorted).2 sorted']
    have notThere : key x ∉ (y::ys).map key := by
      intro member
      obtain ⟨z,isMember,equal⟩ := List.mem_map.mp member
      rcases mem_cons.mp isMember with rfl | later
      · exact absurd equal.symm ((isLess x _).mp smaller).ne
      · exact absurd equal.symm (((isLess x y).mp smaller).trans ((pairwise_cons.mp sorted').1 z later)).ne
    constructor
    · intro holds
      rcases holds with rfl | later
      · exact ⟨mem_cons_self,notThere⟩
      · exact ⟨mem_cons_of_mem _ later.1,later.2⟩
    · intro holds
      exact (mem_cons.mp holds.1).imp id (fun member => ⟨member,holds.2⟩)
  | case4 x xs y ys notSmaller larger ih =>
    rw [setDifference,if_neg notSmaller,if_pos larger,ih sorted (pairwise_cons.mp sorted').2]
    have notThere : key y ∉ (x::xs).map key := by
      intro member
      obtain ⟨z,isMember,equal⟩ := List.mem_map.mp member
      rcases mem_cons.mp isMember with rfl | later
      · exact absurd equal.symm ((isLess y _).mp larger).ne
      · exact absurd equal.symm (((isLess y x).mp larger).trans ((pairwise_cons.mp sorted).1 z later)).ne
    constructor
    · intro holds
      refine ⟨holds.1,?_⟩
      intro isY
      rw [map_cons,mem_cons] at isY
      rcases isY with rfl | later
      · exact notThere holds.1
      · exact holds.2 later
    · intro holds
      exact ⟨holds.1,fun later => holds.2 (mem_cons_of_mem _ later)⟩
  | case5 x xs y ys notSmaller notLarger ih =>
    have equal : key x = key y := le_antisymm (not_lt.mp (mt (isLess y x).mpr notLarger)) (not_lt.mp (mt (isLess x y).mpr notSmaller))
    rw [setDifference,if_neg notSmaller,if_neg notLarger,ih (pairwise_cons.mp sorted).2 (pairwise_cons.mp sorted').2]
    have distinct : ∀ z ∈ xs,key x < key z := (pairwise_cons.mp sorted).1
    simp only [map_cons,mem_cons,← equal]
    constructor
    · intro holds
      refine ⟨Or.inr holds.1,?_⟩
      intro isX
      rcases isX with rfl | later
      · obtain ⟨z,member,same⟩ := List.mem_map.mp holds.1
        exact (distinct z member).ne same.symm
      · exact holds.2 later
    · intro holds
      obtain ⟨notX,notLater⟩ := not_or.mp holds.2
      exact ⟨holds.1.resolve_left notX,notLater⟩

end SetDifference
end Qlever.Library
