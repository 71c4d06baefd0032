import Mathlib

/-! The merge of two sorted lists with a test that need not be the order of the result. The merge is sorted exactly if the test decides no pair
against the order.
-/
namespace Qlever.Library
open List
variable {α : Type} {le : α → α → Bool} {r : α → α → Prop}

def PutInOrder (le : α → α → Bool) (r : α → α → Prop) (x y : α) : Prop := if le x y = true then r x y else r y x

theorem PutInOrder.of_le {x y : α} (smaller : le x y = true) : PutInOrder le r x y ↔ r x y := by rw [PutInOrder,if_pos smaller]

theorem PutInOrder.of_not_le {x y : α} (notSmaller : ¬le x y = true) : PutInOrder le r x y ↔ r y x := by rw [PutInOrder,if_neg notSmaller]

theorem pairwise_merge_iff {xs ys : List α} (left : xs.Pairwise r) (right : ys.Pairwise r)
    (leftMono : xs.Pairwise (fun x x' => ∀ y ∈ ys,le x' y = true → le x y = true))
    (rightMono : ys.Pairwise (fun y y' => ∀ x ∈ xs,le x y = true → le x y' = true)) :
    (xs.merge ys le).Pairwise r ↔ ∀ x ∈ xs,∀ y ∈ ys,PutInOrder le r x y := by
  induction xs generalizing ys with
  | nil => simp [right]
  | cons x xs ihLeft =>
    induction ys with
    | nil => simp [left]
    | cons y ys ihRight =>
      obtain ⟨beforeLeft,sortedLeft⟩ := pairwise_cons.mp left
      obtain ⟨beforeRight,sortedRight⟩ := pairwise_cons.mp right
      obtain ⟨monoLeft,monoLeftRest⟩ := pairwise_cons.mp leftMono
      obtain ⟨monoRight,monoRightRest⟩ := pairwise_cons.mp rightMono
      by_cases smaller : le x y = true
      · -- `x` is put before all of the right list
        have all : ∀ y' ∈ y :: ys,le x y' = true := by
          intro y' member
          rcases mem_cons.mp member with rfl | later
          · exact smaller
          · exact monoRight y' later x mem_cons_self smaller
        have rest := ihLeft sortedLeft right monoLeftRest (rightMono.imp (fun mono x' member => mono x' (mem_cons_of_mem x member)))
        rw [cons_merge_cons_pos le xs ys smaller,pairwise_cons,rest]
        constructor
        · rintro ⟨first,others⟩ x' member y' member'
          rcases mem_cons.mp member with rfl | later
          · exact (PutInOrder.of_le (all y' member')).mpr (first y' (mem_merge.mpr (.inr member')))
          · exact others x' later y' member'
        · intro ordered
          refine ⟨fun z member => ?_,fun x' later => ordered x' (mem_cons_of_mem x later)⟩
          rcases mem_merge.mp member with isLeft | isRight
          · exact beforeLeft z isLeft
          · exact (PutInOrder.of_le (all z isRight)).mp (ordered x mem_cons_self z isRight)
      · -- `y` is put before all of the left list
        have all : ∀ x' ∈ x :: xs,¬le x' y = true := by
          intro x' member
          rcases mem_cons.mp member with rfl | later
          · exact smaller
          · exact fun isSmaller => smaller (monoLeft x' later y mem_cons_self isSmaller)
        have rest := ihRight sortedRight (leftMono.imp (fun mono y' member => mono y' (mem_cons_of_mem y member))) monoRightRest
        rw [cons_merge_cons_neg le xs ys smaller,pairwise_cons,rest]
        constructor
        · rintro ⟨first,others⟩ x' member y' member'
          rcases mem_cons.mp member' with rfl | later
          · exact (PutInOrder.of_not_le (all x' member)).mpr (first x' (mem_merge.mpr (.inl member)))
          · exact others x' member y' later
        · intro ordered
          refine ⟨fun z member => ?_,fun x' member y' later => ordered x' member y' (mem_cons_of_mem y later)⟩
          rcases mem_merge.mp member with isLeft | isRight
          · exact (PutInOrder.of_not_le (all z isLeft)).mp (ordered z isLeft y mem_cons_self)
          · exact beforeRight z isRight

theorem cons_le_cons_iff_lex {Value : Type} [LinearOrder Value] (a b : Value) (as bs : List Value) : a :: as ≤ b :: bs ↔ a < b ∨ a = b ∧ as ≤ bs := by
  rw [← not_lt,cons_lt_cons_iff,not_or,not_and,not_lt,← not_lt (a := bs)]
  constructor
  · rintro ⟨le,rest⟩
    rcases le.lt_or_eq with less | same
    · exact .inl less
    · exact .inr ⟨same,rest same.symm⟩
  · rintro (less | ⟨same,rest⟩)
    · exact ⟨less.le,fun same => absurd same less.ne'⟩
    · exact ⟨same.le,fun _ => rest⟩

section WeakOrder
variable {comparison : α → α → Bool}

theorem not_before_trans {before : α → α → Prop} (order : IsStrictWeakOrder α before) {a b c : α} (first : ¬before a b) (second : ¬before b c) :
    ¬before a c := by
  intro smaller
  have notGreater : ¬before b a := fun greater => second (order.trans b a c greater smaller)
  have notSmaller : ¬before c b := fun greater => first (order.trans a c b smaller greater)
  exact (order.incomp_trans a b c ⟨first,notGreater⟩ ⟨second,notSmaller⟩).1 smaller

theorem merge_sorted (order : IsStrictWeakOrder α (fun a b => comparison a b = true)) {range1 range2 : List α}
    (sorted1 : range1.Pairwise (fun a b => comparison b a = false)) (sorted2 : range2.Pairwise (fun a b => comparison b a = false)) :
    (List.merge range2 range1 (fun a b => !comparison b a)).Pairwise (fun a b => comparison b a = false) := by
  have same : ∀ a b,comparison b a = false ↔ (!comparison b a) = true := fun a b => by rw [Bool.not_eq_true']
  simp only [same] at sorted1 sorted2 ⊢
  apply pairwise_merge _ _ _ _ sorted2 sorted1
  · intro a b c first second
    rw [Bool.not_eq_true',← Bool.not_eq_true] at first second ⊢
    exact not_before_trans order second first
  · intro a b
    cases smaller : comparison b a with
    | false => rfl
    | true =>
      have notGreater : comparison a b = false := by
        rw [← Bool.not_eq_true]
        exact fun greater => order.irrefl a (order.trans a b a greater smaller)
      rw [notGreater]
      rfl

end WeakOrder

end Qlever.Library
