import Mathlib

/-! Prefixes of sorted lists. A test that holds for an element only if it holds for
all elements before it cuts the list once, so the prefix that passes the test
is the same as the filtered list. This is what binary searches compute.
-/
namespace Qlever.Library
variable {α : Type}

section
variable (p : α → Bool) (xs : List α) (closed : xs.Pairwise (fun x y => p y = true → p x = true))
include closed

theorem takeWhile_eq_filter :
    xs.takeWhile p = xs.filter p := by
  induction xs with
  | nil => rfl
  | cons x xs ih =>
    obtain ⟨head,tail⟩ := List.pairwise_cons.mp closed
    cases keep : p x with
    | true => simp [keep,ih tail]
    | false =>
      have none : xs.filter p = [] := by
        rw [List.filter_eq_nil_iff]
        intro y member passes
        simp [head y member passes] at keep
      simp [keep,none]

theorem dropWhile_eq_filter :
    xs.dropWhile p = xs.filter (fun x => !p x) := by
  induction xs with
  | nil => rfl
  | cons x xs ih =>
    obtain ⟨head,tail⟩ := List.pairwise_cons.mp closed
    cases keep : p x with
    | true => simp [keep,ih tail]
    | false =>
      have all : xs.filter (fun y => !p y) = xs := by
        rw [List.filter_eq_self]
        intro y member
        by_contra passes
        have first := head y member (by simpa using passes)
        simp [first] at keep
      simp [keep,all]

end

section Order
variable {κ : Type} [LinearOrder κ] (f : α → κ) (bound : κ)

section
variable {xs : List α} (sorted : xs.Pairwise (fun x y => f x ≤ f y))
include sorted

theorem closed_lt :
    xs.Pairwise (fun x y => decide (f y < bound) = true → decide (f x < bound) = true) := by
  apply sorted.imp
  intro x y le less
  simp only [decide_eq_true_eq] at less ⊢
  exact lt_of_le_of_lt le less

theorem closed_le :
    xs.Pairwise (fun x y => decide (f y ≤ bound) = true → decide (f x ≤ bound) = true) := by
  apply sorted.imp
  intro x y le less
  simp only [decide_eq_true_eq] at less ⊢
  exact le_trans le less

theorem takeWhile_lt :
    xs.takeWhile (fun x => f x < bound) = xs.filter (fun x => f x < bound) :=
  takeWhile_eq_filter _ xs (closed_lt f bound sorted)

theorem takeWhile_le :
    xs.takeWhile (fun x => f x ≤ bound) = xs.filter (fun x => f x ≤ bound) :=
  takeWhile_eq_filter _ xs (closed_le f bound sorted)

theorem dropWhile_lt :
    xs.dropWhile (fun x => f x < bound) = xs.filter (fun x => bound ≤ f x) := by
  rw [dropWhile_eq_filter _ xs (closed_lt f bound sorted)]
  apply List.filter_congr
  intro x _
  simp [← not_lt]

theorem dropWhile_le :
    xs.dropWhile (fun x => f x ≤ bound) = xs.filter (fun x => bound < f x) := by
  rw [dropWhile_eq_filter _ xs (closed_le f bound sorted)]
  apply List.filter_congr
  intro x _
  simp [← not_le]

theorem filter_le_append_filter_lt :
    xs.filter (fun x => f x ≤ bound) ++ xs.filter (fun x => bound < f x) = xs := by
  rw [← takeWhile_le f bound sorted,← dropWhile_le f bound sorted,List.takeWhile_append_dropWhile]

theorem filter_lt_append_filter_le :
    xs.filter (fun x => f x < bound) ++ xs.filter (fun x => bound ≤ f x) = xs := by
  rw [← takeWhile_lt f bound sorted,← dropWhile_lt f bound sorted,List.takeWhile_append_dropWhile]

end

variable {f} {xs : List α} {x : α}

end Order
end Qlever.Library
