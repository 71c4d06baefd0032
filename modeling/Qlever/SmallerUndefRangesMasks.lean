import Qlever.SmallerUndefRanges

/-! The masks of a row: their columns, their number, and the rows that a mask is compared with. -/
namespace Qlever.SmallerUndefRanges
open ZipperJoin FindUndefRanges Library List
variable {α κ : Type} [LinearOrder κ] [OrderBot κ] (ids : IdColumns α κ)

section Columns

def column (row : List κ) (colIdx : Nat) : κ := row.getD colIdx ⊥

section
variable {a b : List κ}

theorem lt_of_undef {numDefined : Nat} (width : a.length = b.length)
    (agree : ∀ j < numDefined,column a j = ⊥ ∨ column a j = column b j) (undef : ∃ j < numDefined,column a j = ⊥)
    (defined : ∀ j < numDefined,column b j ≠ ⊥) : a < b := by
  induction a generalizing b numDefined with
  | nil =>
    obtain ⟨j,inside,_⟩ := undef
    have none : b = [] := length_eq_zero_iff.mp width.symm
    exact absurd (by simp [column,none]) (defined j inside)
  | cons x a ih =>
    cases b with
    | nil => simp at width
    | cons y b =>
      obtain ⟨j,inside,isUndef⟩ := undef
      cases numDefined with
      | zero => omega
      | succ numDefined =>
        rcases agree 0 (by omega) with first | first
        · have less : x < y := by
            have top := defined 0 (by omega)
            simp only [column,getD_cons_zero] at first top
            rw [first]
            exact bot_lt_iff_ne_bot.mpr top
          exact cons_lt_cons_iff.mpr (Or.inl less)
        · simp only [column,getD_cons_zero] at first
          subst first
          refine cons_lt_cons_iff.mpr (Or.inr ⟨rfl,?_⟩)
          have tail : ∀ j < numDefined,column a j = ⊥ ∨ column a j = column b j := fun j inside => agree (j + 1) (by omega)
          refine ih (by simpa using width) tail ?_ (fun j inside => defined (j + 1) (by omega))
          cases j with
          | zero => exact absurd isUndef (defined 0 (by omega))
          | succ j => exact ⟨j,by omega,isUndef⟩

theorem le_of_columns (width : a.length = b.length) (le : ∀ j,column a j ≤ column b j) : a ≤ b := by
  induction a generalizing b with
  | nil =>
    rw [length_eq_zero_iff.mp width.symm]
  | cons x a ih =>
    cases b with
    | nil => simp at width
    | cons y b =>
      have first : x ≤ y := le 0
      have rest := ih (b := b) (by simpa using width) (fun j => le (j + 1))
      rcases first.lt_or_eq with less | rfl
      · exact (cons_lt_cons_iff.mpr (Or.inl less)).le
      · rcases rest.lt_or_eq with less | rfl
        · exact (cons_lt_cons_iff.mpr (Or.inr ⟨rfl,less⟩)).le
        · exact le_rfl

theorem compatible_iff_columns (width : a.length = b.length) :
    compatible a b = true ↔ ∀ j,column a j = ⊥ ∨ column b j = ⊥ ∨ column a j = column b j := by
  induction a generalizing b with
  | nil =>
    simp [FindUndefRanges.compatible,column]
  | cons x a ih =>
    cases b with
    | nil => simp at width
    | cons y b =>
      have tail := ih (b := b) (by simpa using width)
      simp only [FindUndefRanges.compatible,zip_cons_cons,all_cons,Bool.and_eq_true,Bool.or_eq_true,decide_eq_true_eq] at tail ⊢
      rw [tail,or_assoc]
      constructor
      · rintro ⟨first,rest⟩ j
        cases j with
        | zero => exact first
        | succ j => exact rest j
      · intro all
        exact ⟨all 0,fun j => all (j + 1)⟩

theorem smaller_compatible_iff {numDefined : Nat} (width : a.length = b.length)
    (defined : ∀ j < numDefined,column b j ≠ ⊥) (undefined : ∀ j,numDefined ≤ j → column b j = ⊥) :
    a < b ∧ compatible a b = true ↔
      (∀ j < numDefined,column a j = ⊥ ∨ column a j = column b j) ∧ ∃ j < numDefined,column a j = ⊥ := by
  rw [compatible_iff_columns width]
  constructor
  · rintro ⟨less,agree⟩
    have agree' : ∀ j < numDefined,column a j = ⊥ ∨ column a j = column b j := by
      intro j inside
      rcases agree j with undef | undef | equal
      · exact Or.inl undef
      · exact absurd undef (defined j inside)
      · exact Or.inr equal
    refine ⟨agree',?_⟩
    by_contra none
    push Not at none
    apply less.not_ge
    apply le_of_columns width.symm
    intro j
    rcases Nat.lt_or_ge j numDefined with inside | outside
    · exact ((agree' j inside).resolve_left (none j inside)).ge
    · rw [undefined j outside]
      exact bot_le
  · rintro ⟨agree,undef⟩
    refine ⟨lt_of_undef width agree undef defined,?_⟩
    intro j
    rcases Nat.lt_or_ge j numDefined with inside | outside
    · rcases agree j inside with undef | equal
      · exact Or.inl undef
      · exact Or.inr (Or.inr equal)
    · exact Or.inr (Or.inl (undefined j outside))

theorem take_eq_iff {count : Nat} (widthA : count ≤ a.length) (widthB : count ≤ b.length) :
    a.take count = b.take count ↔ ∀ j < count,column a j = column b j := by
  constructor
  · intro same j inside
    have read := congrArg (fun row => row.getD j ⊥) same
    simpa only [column,getD_eq_getElem?_getD,getElem?_take_of_lt inside] using read
  · intro same
    apply ext_getElem?
    intro j
    rcases Nat.lt_or_ge j count with inside | outside
    · have columns := same j inside
      have readA := getElem?_eq_getElem (show j < a.length by omega)
      have readB := getElem?_eq_getElem (show j < b.length by omega)
      rw [column,column,getD_eq_getElem?_getD,getD_eq_getElem?_getD,readA,readB,Option.getD_some,Option.getD_some] at columns
      rw [getElem?_take_of_lt inside,getElem?_take_of_lt inside,readA,readB,columns]
    · rw [getElem?_take_eq_none outside,getElem?_take_eq_none outside]

theorem take_succ_eq_iff {count : Nat} (widthA : count < a.length) (widthB : count < b.length) :
    a.take (count + 1) = b.take (count + 1) ↔ a.take count = b.take count ∧ column a count = column b count := by
  rw [take_eq_iff widthA widthB,take_eq_iff widthA.le widthB.le]
  constructor
  · intro all
    exact ⟨fun j below => all j (by omega),all count (by omega)⟩
  · rintro ⟨before,last⟩ j below
    rcases Nat.lt_or_eq_of_le (Nat.le_of_lt_succ below) with smaller | rfl
    · exact before j smaller
    · exact last

end

end Columns

section Masks
variable {ids} {row : List α} {numDefined : Nat}

section
omit [LinearOrder κ] [OrderBot κ]

theorem length_values (row : List α) : (ids.values row).length = row.length := length_map _

theorem length_getIthMask (row : List α) (numDefined i : Nat) : (getIthMask ids row numDefined i).length = row.length := length_mapIdx

end

theorem column_mask (undefined : ids.value ids.makeUndefined = ⊥) (i j : Nat) :
    column (ids.values (getIthMask ids row numDefined i)) j =
      if j < numDefined ∧ i.testBit (numDefined - j - 1) = false then ⊥ else column (ids.values row) j := by
  simp only [column,IdColumns.values,getIthMask,getD_eq_getElem?_getD,getElem?_map,getElem?_mapIdx]
  cases row[j]? with
  | none => simp
  | some id =>
    simp only [Option.map_some,Option.getD_some,Bool.and_eq_true,decide_eq_true_eq,Bool.not_eq_true']
    split
    next => exact undefined
    next => rfl

/-- The columns before `numDefined` are those of the mask. -/
def Matches (ids : IdColumns α κ) (row : List α) (numDefined i : Nat) (element : List κ) : Prop :=
  ∀ j < numDefined,column element j = if i.testBit (numDefined - j - 1) then column (ids.values row) j else ⊥

section
variable (defined : ∀ j < numDefined,column (ids.values row) j ≠ ⊥)
include defined

theorem matches_unique {i i' : Nat} (inside : i < 2 ^ numDefined)
    (inside' : i' < 2 ^ numDefined) {element : List κ} (first : Matches ids row numDefined i element)
    (second : Matches ids row numDefined i' element) : i = i' := by
  apply Nat.eq_of_testBit_eq
  intro bit
  rcases Nat.lt_or_ge bit numDefined with below | above
  · have one := first (numDefined - bit - 1) (by omega)
    have two := second (numDefined - bit - 1) (by omega)
    have top := defined (numDefined - bit - 1) (by omega)
    rw [show numDefined - (numDefined - bit - 1) - 1 = bit by omega] at one two
    rw [one] at two
    cases isOne : i.testBit bit <;> cases isTwo : i'.testBit bit <;> simp only [isOne,isTwo,if_true,Bool.false_eq_true,if_false] at two
    · rfl
    · exact absurd two.symm top
    · exact absurd two top
    · rfl
  · rw [Nat.testBit_lt_two_pow (inside.trans_le (Nat.pow_le_pow_right (by omega) above)),
      Nat.testBit_lt_two_pow (inside'.trans_le (Nat.pow_le_pow_right (by omega) above))]

theorem exists_matches_iff (element : List κ) :
    (∃ i < 2 ^ numDefined - 1,Matches ids row numDefined i element) ↔
      (∀ j < numDefined,column element j = ⊥ ∨ column element j = column (ids.values row) j) ∧ ∃ j < numDefined,column element j = ⊥ := by
  constructor
  · rintro ⟨i,inside,isMatch⟩
    refine ⟨?_,?_⟩
    · intro j below
      rw [isMatch j below]
      split
      next => exact Or.inr rfl
      next => exact Or.inl rfl
    · by_contra none
      push Not at none
      have all : i = 2 ^ numDefined - 1 := by
        apply Nat.eq_of_testBit_eq
        intro bit
        rw [Nat.testBit_two_pow_sub_one]
        rcases Nat.lt_or_ge bit numDefined with below | above
        · have differs := none (numDefined - bit - 1) (by omega)
          rw [isMatch (numDefined - bit - 1) (by omega),show numDefined - (numDefined - bit - 1) - 1 = bit by omega] at differs
          cases isBit : i.testBit bit with
          | true => simp [below]
          | false => simp [isBit] at differs
        · rw [Nat.testBit_lt_two_pow ((inside.trans_le (Nat.sub_le _ 1)).trans_le (Nat.pow_le_pow_right (by omega) above))]
          simp [above]
      omega
  · rintro ⟨agree,j,below,undef⟩
    have bits : ∀ bit < numDefined,(Nat.ofBits (fun bit : Fin numDefined => decide (column element (numDefined - bit.val - 1) ≠ ⊥))).testBit bit =
        decide (column element (numDefined - bit - 1) ≠ ⊥) := by
      intro bit below
      rw [Nat.testBit_ofBits_lt _ _ below]
    have bound := Nat.ofBits_lt_two_pow (fun bit : Fin numDefined => decide (column element (numDefined - bit.val - 1) ≠ ⊥))
    refine ⟨Nat.ofBits (fun bit : Fin numDefined => decide (column element (numDefined - bit.val - 1) ≠ ⊥)),?_,?_⟩
    · have notLast : Nat.ofBits (fun bit : Fin numDefined => decide (column element (numDefined - bit.val - 1) ≠ ⊥)) ≠ 2 ^ numDefined - 1 := by
        intro last
        have bit := bits (numDefined - j - 1) (by omega)
        rw [last,Nat.testBit_two_pow_sub_one,show numDefined - (numDefined - j - 1) - 1 = j by omega,undef] at bit
        simp only [ne_eq,not_true_eq_false,decide_false,decide_eq_false_iff_not] at bit
        omega
      omega
    · intro j below
      rw [bits (numDefined - j - 1) (by omega),show numDefined - (numDefined - j - 1) - 1 = j by omega]
      rcases agree j below with isUndef | equal
      · simp [isUndef]
      · have top := defined j below
        simp [equal,top]

end

end Masks

section Prefix

variable {a b : List κ}

omit [OrderBot κ] in
theorem cons_le_iff {x y : κ} : x::a ≤ y::b ↔ x < y ∨ x = y ∧ a ≤ b := by
  rw [le_iff_lt_or_eq,cons_lt_cons_iff,List.cons.injEq,le_iff_lt_or_eq (a := a),or_assoc,and_or_left]

omit [OrderBot κ] in
theorem take_le (le : a ≤ b) (count : Nat) : a.take count ≤ b.take count := by
  induction count generalizing a b with
  | zero => exact le_rfl
  | succ count ih =>
    cases a with
    | nil =>
      cases b with
      | nil => exact le_rfl
      | cons y b => exact (nil_lt_cons y _).le
    | cons x a =>
      cases b with
      | nil => exact absurd (nil_lt_cons x a) le.not_gt
      | cons y b =>
        rcases cons_le_iff.mp le with less | ⟨rfl,rest⟩
        · exact cons_le_iff.mpr (Or.inl less)
        · exact cons_le_iff.mpr (Or.inr ⟨rfl,ih rest⟩)

theorem column_le (width : a.length = b.length) (le : a ≤ b) {count : Nat} (same : a.take count = b.take count) :
    column a count ≤ column b count := by
  induction count generalizing a b with
  | zero =>
    cases a with
    | nil => exact bot_le
    | cons x a =>
      cases b with
      | nil => simp at width
      | cons y b =>
        rcases cons_le_iff.mp le with less | ⟨rfl,_⟩
        · exact less.le
        · exact le_rfl
  | succ count ih =>
    cases a with
    | nil => exact bot_le
    | cons x a =>
      cases b with
      | nil => simp at width
      | cons y b =>
        rw [take_succ_cons,take_succ_cons,List.cons.injEq] at same
        rcases cons_le_iff.mp le with less | ⟨_,rest⟩
        · exact absurd same.1 less.ne
        · exact ih (by simpa using width) rest same.2

theorem lt_iff_column (width : a.length = b.length) {count : Nat} (same : a.take count = b.take count)
    (undefined : ∀ j,count < j → column b j = ⊥) : a < b ↔ column a count < column b count := by
  constructor
  · intro less
    refine lt_of_le_of_ne (column_le width less.le same) ?_
    intro equal
    apply less.not_ge
    apply le_of_columns width.symm
    intro j
    rcases lt_trichotomy j count with before | rfl | after
    · have both := congrArg (fun row => row.getD j ⊥) same
      simp only [getD_eq_getElem?_getD,getElem?_take_of_lt before] at both
      simp only [column,getD_eq_getElem?_getD]
      exact both.ge
    · exact equal.ge
    · rw [undefined j after]
      exact bot_le
  · intro less
    by_contra notLess
    exact (column_le width.symm (le_of_not_gt notLess) same.symm).not_gt less

end Prefix

end Qlever.SmallerUndefRanges
