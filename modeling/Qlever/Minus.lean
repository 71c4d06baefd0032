import Mathlib

/-! The operation `Minus` on two tables that are sorted by the join columns. The undefined ID is the smallest one. -/
namespace Qlever.Minus
open List
variable {Id : Type} [LinearOrder Id] {m n : Nat}

inductive RowComparison
  | EQUAL
  | LEFT_SMALLER
  | RIGHT_SMALLER
  deriving DecidableEq, Repr

def isRowEqSkipFirst (a : Fin m → Id) (b : Fin n → Id) : List (Fin m × Fin n) → RowComparison
  | [] => .EQUAL
  | jc :: others =>
    if a jc.1 < b jc.2 then .LEFT_SMALLER
    else if a jc.1 > b jc.2 then .RIGHT_SMALLER
    else isRowEqSkipFirst a b others

variable (first : Fin m × Fin n) (others : List (Fin m × Fin n))

/-- The loop over rows that are equal in the first join column: the rows that it writes, and the rows that are left. -/
def minusEqual : List (Fin m → Id) → List (Fin n → Id) → List (Fin m → Id) × List (Fin m → Id) × List (Fin n → Id)
  | a :: as,b :: bs =>
    if b first.2 = a first.1 then
      match isRowEqSkipFirst a b others with
      | .EQUAL => minusEqual as (b :: bs)
      | .LEFT_SMALLER =>
        let (written,rest) := minusEqual as (b :: bs)
        (a :: written,rest)
      | .RIGHT_SMALLER => minusEqual (a :: as) bs
    else ([],a :: as,b :: bs)
  | as,bs => ([],as,bs)
termination_by as bs => as.length + bs.length

theorem minusEqual_suffix (as : List (Fin m → Id)) (bs : List (Fin n → Id)) :
    (minusEqual first others as bs).2.1 <:+ as ∧ (minusEqual first others as bs).2.2 <:+ bs := by
  fun_induction minusEqual first others as bs with
  | case1 a as b bs same rowEq ih => exact ⟨ih.1.trans (suffix_cons a as),ih.2⟩
  | case2 a as b bs same rowEq written rest isRest ih =>
    rw [isRest] at ih
    exact ⟨ih.1.trans (suffix_cons a as),ih.2⟩
  | case3 a as b bs same rowEq ih => exact ⟨ih.1,ih.2.trans (suffix_cons b bs)⟩
  | case4 a as b bs different | case5 as bs finished => exact ⟨suffix_rfl,suffix_rfl⟩

theorem minusEqual_progress {a : Fin m → Id} {b : Fin n → Id} (same : b first.2 = a first.1) (as : List (Fin m → Id)) (bs : List (Fin n → Id)) :
    (minusEqual first others (a :: as) (b :: bs)).2.1.length + (minusEqual first others (a :: as) (b :: bs)).2.2.length <
      (a :: as).length + (b :: bs).length := by
  rw [minusEqual,if_pos same]
  have shorter := minusEqual_suffix first others as (b :: bs)
  have shorter' := minusEqual_suffix first others (a :: as) bs
  split
  next => exact Nat.add_lt_add_of_lt_of_le (Nat.lt_succ_of_le shorter.1.length_le) shorter.2.length_le
  next => exact Nat.add_lt_add_of_lt_of_le (Nat.lt_succ_of_le shorter.1.length_le) shorter.2.length_le
  next => exact Nat.add_lt_add_of_le_of_lt shorter'.1.length_le (Nat.lt_succ_of_le shorter'.2.length_le)

theorem minusLoop_progress {a a' : Fin m → Id} {b b' : Fin n → Id} {as as' : List (Fin m → Id)} {bs bs' : List (Fin n → Id)}
    (isLeft : (a :: as).dropWhile (fun row => row first.1 < b first.2) = a' :: as')
    (isRight : (b :: bs).dropWhile (fun row => row first.2 < a' first.1) = b' :: bs') :
    (minusEqual first others (a' :: as') (b' :: bs')).2.1.length + (minusEqual first others (a' :: as') (b' :: bs')).2.2.length <
      (a :: as).length + (b :: bs).length := by
  have shorter := minusEqual_suffix first others (a' :: as') (b' :: bs')
  have left := shorter.1.length_le
  have right := shorter.2.length_le
  have left' := (dropWhile_sublist (l := a :: as) (fun row => decide (row first.1 < b first.2))).length_le
  have right' := (dropWhile_sublist (l := b :: bs) (fun row => decide (row first.2 < a' first.1))).length_le
  rw [isLeft] at left'
  rw [isRight] at right'
  by_cases smaller : a first.1 < b first.2
  · rw [dropWhile_cons_of_pos (by simpa using smaller)] at isLeft
    have dropped := (dropWhile_sublist (l := as) (fun row => decide (row first.1 < b first.2))).length_le
    rw [isLeft] at dropped
    rw [show (a :: as).length = as.length + 1 from length_cons]
    omega
  rw [dropWhile_cons_of_neg (by simpa using smaller)] at isLeft
  cases isLeft
  by_cases greater : b first.2 < a first.1
  · rw [dropWhile_cons_of_pos (by simpa using greater)] at isRight
    have dropped := (dropWhile_sublist (l := bs) (fun row => decide (row first.2 < a first.1))).length_le
    rw [isRight] at dropped
    rw [show (b :: bs).length = bs.length + 1 from length_cons]
    omega
  · rw [dropWhile_cons_of_neg (by simpa using greater)] at isRight
    cases isRight
    exact minusEqual_progress first others (le_antisymm (not_lt.mp smaller) (not_lt.mp greater)) as bs

/-- The outer loop, with the rows that are written at the label `finish`. -/
def minusLoop : List (Fin m → Id) → List (Fin n → Id) → List (Fin m → Id)
  | [],_ => []
  | as,[] => as
  | a :: as,b :: bs =>
    let written := (a :: as).takeWhile (fun row => row first.1 < b first.2)
    match _isLeft : (a :: as).dropWhile (fun row => row first.1 < b first.2) with
    | [] => written
    | a' :: as' =>
      match _isRight : (b :: bs).dropWhile (fun row => row first.2 < a' first.1) with
      | [] => written ++ a' :: as'
      | b' :: bs' =>
        let equal := minusEqual first others (a' :: as') (b' :: bs')
        written ++ equal.1 ++ minusLoop equal.2.1 equal.2.2
termination_by as bs => as.length + bs.length
decreasing_by exact minusLoop_progress first others _isLeft _isRight

/-- What `computeMinus` appends to the empty result. -/
def computeMinus (joinColumns : List (Fin m × Fin n)) (as : List (Fin m → Id)) (bs : List (Fin n → Id)) : List (Fin m → Id) :=
  if as.isEmpty then []
  else
    match joinColumns with
    | [] => as
    | first :: others => if bs.isEmpty then as else minusLoop first others as bs

section Keys
variable (joinColumns : List (Fin m × Fin n))

def leftKey (row : Fin m → Id) : List Id := joinColumns.map (fun jc => row jc.1)

def rightKey (row : Fin n → Id) : List Id := joinColumns.map (fun jc => row jc.2)

def SortedLeft (as : List (Fin m → Id)) : Prop := as.Pairwise (fun row row' => leftKey joinColumns row ≤ leftKey joinColumns row')

def SortedRight (bs : List (Fin n → Id)) : Prop := bs.Pairwise (fun row row' => rightKey joinColumns row ≤ rightKey joinColumns row')

def withoutEqual (as : List (Fin m → Id)) (bs : List (Fin n → Id)) : List (Fin m → Id) :=
  as.filter (fun a => bs.all (fun b => leftKey joinColumns a ≠ rightKey joinColumns b))

variable {joinColumns} {a : Fin m → Id} {b : Fin n → Id} {as : List (Fin m → Id)} {bs : List (Fin n → Id)}

theorem withoutEqual_less (sorted : SortedRight joinColumns (b :: bs)) (less : leftKey joinColumns a < rightKey joinColumns b) :
    withoutEqual joinColumns (a :: as) (b :: bs) = a :: withoutEqual joinColumns as (b :: bs) := by
  apply filter_cons_of_pos
  rw [all_eq_true]
  intro other isOther
  have above : rightKey joinColumns b ≤ rightKey joinColumns other := by
    rcases mem_cons.mp isOther with rfl | later
    · exact le_refl _
    · exact (pairwise_cons.mp sorted).1 other later
  exact decide_eq_true (less.trans_le above).ne

theorem withoutEqual_greater (sorted : SortedLeft joinColumns (a :: as)) (greater : rightKey joinColumns b < leftKey joinColumns a) :
    withoutEqual joinColumns (a :: as) (b :: bs) = withoutEqual joinColumns (a :: as) bs := by
  apply filter_congr
  intro other isOther
  have above : leftKey joinColumns a ≤ leftKey joinColumns other := by
    rcases mem_cons.mp isOther with rfl | later
    · exact le_refl _
    · exact (pairwise_cons.mp sorted).1 other later
  rw [all_cons,decide_eq_true (greater.trans_le above).ne',Bool.true_and]

theorem withoutEqual_equal (equal : leftKey joinColumns a = rightKey joinColumns b) :
    withoutEqual joinColumns (a :: as) (b :: bs) = withoutEqual joinColumns as (b :: bs) := by
  apply filter_cons_of_neg
  simp [equal]

theorem isRowEqSkipFirst_eq (a : Fin m → Id) (b : Fin n → Id) (columns : List (Fin m × Fin n)) :
    (isRowEqSkipFirst a b columns = .EQUAL ↔ leftKey columns a = rightKey columns b) ∧
      (isRowEqSkipFirst a b columns = .LEFT_SMALLER ↔ leftKey columns a < rightKey columns b) ∧
        (isRowEqSkipFirst a b columns = .RIGHT_SMALLER ↔ rightKey columns b < leftKey columns a) := by
  induction columns with
  | nil => simp [isRowEqSkipFirst,leftKey,rightKey]
  | cons jc columns ih =>
    simp only [leftKey,rightKey] at ih
    rw [isRowEqSkipFirst]
    simp only [leftKey,rightKey,map_cons,List.cons.injEq,cons_lt_cons_iff]
    rcases lt_trichotomy (a jc.1) (b jc.2) with less | same | greater
    · simp [less,less.ne,less.ne',less.not_gt]
    · simp [same,ih]
    · simp [greater,greater.ne,greater.ne',greater.not_gt]

section
variable {first : Fin m × Fin n} {others : List (Fin m × Fin n)}

theorem leftKey_less (less : a first.1 < b first.2) :
    leftKey (first :: others) a < rightKey (first :: others) b :=
  cons_lt_cons_iff.mpr (Or.inl less)

theorem rightKey_less (less : b first.2 < a first.1) :
    rightKey (first :: others) b < leftKey (first :: others) a :=
  cons_lt_cons_iff.mpr (Or.inl less)

end

end Keys

section Loops
variable {first others} {joinColumns : List (Fin m × Fin n)} {as : List (Fin m → Id)} {bs : List (Fin n → Id)}

section
variable (isColumns : joinColumns = first :: others)
include isColumns

theorem minusEqual_spec (sortedA : SortedLeft joinColumns as) (sortedB : SortedRight joinColumns bs) :
    withoutEqual joinColumns as bs = (minusEqual first others as bs).1 ++
      withoutEqual joinColumns (minusEqual first others as bs).2.1 (minusEqual first others as bs).2.2 := by
  fun_induction minusEqual first others as bs with
  | case1 a as b bs same rowEq ih =>
    have equal : leftKey joinColumns a = rightKey joinColumns b := by
      rw [isColumns]
      exact congrArg₂ List.cons same.symm ((isRowEqSkipFirst_eq a b others).1.mp rowEq)
    rw [withoutEqual_equal equal]
    exact ih sortedA.tail sortedB
  | case2 a as b bs same rowEq written rest isRest ih =>
    have less : leftKey joinColumns a < rightKey joinColumns b := by
      rw [isColumns]
      exact cons_lt_cons_iff.mpr (Or.inr ⟨same.symm,(isRowEqSkipFirst_eq a b others).2.1.mp rowEq⟩)
    rw [withoutEqual_less sortedB less,ih sortedA.tail sortedB,isRest]
    rfl
  | case3 a as b bs same rowEq ih =>
    have greater : rightKey joinColumns b < leftKey joinColumns a := by
      rw [isColumns]
      exact cons_lt_cons_iff.mpr (Or.inr ⟨same,(isRowEqSkipFirst_eq a b others).2.2.mp rowEq⟩)
    rw [withoutEqual_greater sortedA greater]
    exact ih sortedA sortedB.tail
  | case4 a as b bs different | case5 as bs finished => rfl

theorem withoutEqual_takeWhile {b : Fin n → Id} (sortedB : SortedRight joinColumns (b :: bs)) :
    withoutEqual joinColumns as (b :: bs) = as.takeWhile (fun row => row first.1 < b first.2) ++
      withoutEqual joinColumns (as.dropWhile (fun row => row first.1 < b first.2)) (b :: bs) := by
  induction as with
  | nil => rfl
  | cons a as ih =>
    by_cases less : a first.1 < b first.2
    · rw [takeWhile_cons_of_pos (by simpa using less),dropWhile_cons_of_pos (by simpa using less),
        withoutEqual_less sortedB (isColumns ▸ leftKey_less less),ih]
      rfl
    · rw [takeWhile_cons_of_neg (by simpa using less),dropWhile_cons_of_neg (by simpa using less)]
      rfl

theorem withoutEqual_dropWhile {a : Fin m → Id} (sortedA : SortedLeft joinColumns (a :: as)) :
    withoutEqual joinColumns (a :: as) bs = withoutEqual joinColumns (a :: as) (bs.dropWhile (fun row => row first.2 < a first.1)) := by
  induction bs with
  | nil => rfl
  | cons b bs ih =>
    by_cases less : b first.2 < a first.1
    · rw [dropWhile_cons_of_pos (by simpa using less),withoutEqual_greater sortedA (isColumns ▸ rightKey_less less),ih]
    · rw [dropWhile_cons_of_neg (by simpa using less)]

end

theorem withoutEqual_nil (as : List (Fin m → Id)) : withoutEqual joinColumns as [] = as := by
  simp [withoutEqual]

theorem minusLoop_eq (isColumns : joinColumns = first :: others) (sortedA : SortedLeft joinColumns as) (sortedB : SortedRight joinColumns bs) :
    minusLoop first others as bs = withoutEqual joinColumns as bs := by
  fun_induction minusLoop first others as bs with
  | case1 bs => rfl
  | case2 as nonempty => exact (withoutEqual_nil as).symm
  | case3 a as b bs written isLeft =>
    rw [withoutEqual_takeWhile isColumns sortedB,isLeft]
    exact (append_nil _).symm
  | case4 a as b bs written a' as' isLeft isRight =>
    have sorted' : SortedLeft joinColumns (a' :: as') := isLeft ▸ sortedA.sublist (dropWhile_sublist _)
    rw [withoutEqual_takeWhile isColumns sortedB,isLeft,withoutEqual_dropWhile isColumns sorted',isRight,withoutEqual_nil]
  | case5 a as b bs written a' as' isLeft b' bs' isRight equal ih =>
    have sorted' : SortedLeft joinColumns (a' :: as') := isLeft ▸ sortedA.sublist (dropWhile_sublist _)
    have sorted'' : SortedRight joinColumns (b' :: bs') := isRight ▸ sortedB.sublist (dropWhile_sublist _)
    have suffix' := minusEqual_suffix first others (a' :: as') (b' :: bs')
    rw [withoutEqual_takeWhile isColumns sortedB,isLeft,withoutEqual_dropWhile isColumns sorted',isRight,minusEqual_spec isColumns sorted' sorted'',
      append_assoc,ih (sorted'.sublist suffix'.1.sublist) (sorted''.sublist suffix'.2.sublist)]

theorem computeMinus_eq (sortedA : SortedLeft joinColumns as) (sortedB : SortedRight joinColumns bs) :
    computeMinus joinColumns as bs = if joinColumns = [] then as else withoutEqual joinColumns as bs := by
  cases as with
  | nil => simp [computeMinus,withoutEqual]
  | cons a as =>
    cases isColumns : joinColumns with
    | nil => rfl
    | cons first others =>
      cases bs with
      | nil =>
        rw [withoutEqual_nil]
        rfl
      | cons b bs =>
        subst isColumns
        exact minusLoop_eq rfl sortedA sortedB

end Loops

section Specification
variable [OrderBot Id] (joinColumns : List (Fin m × Fin n)) (as : List (Fin m → Id)) (bs : List (Fin n → Id))

def Compatible (a : Fin m → Id) (b : Fin n → Id) : Prop := ∀ jc ∈ joinColumns,a jc.1 = ⊥ ∨ b jc.2 = ⊥ ∨ a jc.1 = b jc.2

def Overlapping (a : Fin m → Id) (b : Fin n → Id) : Prop := ∃ jc ∈ joinColumns,a jc.1 ≠ ⊥ ∧ b jc.2 ≠ ⊥

instance (a : Fin m → Id) (b : Fin n → Id) : Decidable (Compatible joinColumns a b) :=
  inferInstanceAs (Decidable (∀ jc ∈ joinColumns,a jc.1 = ⊥ ∨ b jc.2 = ⊥ ∨ a jc.1 = b jc.2))

instance (a : Fin m → Id) (b : Fin n → Id) : Decidable (Overlapping joinColumns a b) :=
  inferInstanceAs (Decidable (∃ jc ∈ joinColumns,a jc.1 ≠ ⊥ ∧ b jc.2 ≠ ⊥))

def minus : List (Fin m → Id) := as.filter (fun a => bs.all (fun b => ¬ Compatible joinColumns a b ∨ ¬ Overlapping joinColumns a b))

/-- Where two rows match only because of undefined values there is also an equal row, and equal rows are not undefined in all join columns. -/
structure MatchesByEquality : Prop where
  partialMatch : ∀ a ∈ as,∀ b ∈ bs,Compatible joinColumns a b → Overlapping joinColumns a b → ∃ b' ∈ bs,leftKey joinColumns a = rightKey joinColumns b'
  notUndefined : joinColumns ≠ [] → ∀ a ∈ as,(∀ jc ∈ joinColumns,a jc.1 = ⊥) → ∀ b ∈ bs,∃ jc ∈ joinColumns,b jc.2 ≠ ⊥

variable {joinColumns as bs}

omit [LinearOrder Id] [OrderBot Id] in
theorem leftKey_eq_iff {a : Fin m → Id} {b : Fin n → Id} : leftKey joinColumns a = rightKey joinColumns b ↔ ∀ jc ∈ joinColumns,a jc.1 = b jc.2 :=
  map_inj_left

theorem filter_eq_filter_iff
    {Row : Type} {rows : List Row} {p q : Row → Bool} : rows.filter p = rows.filter q ↔ ∀ row ∈ rows,(p row = true ↔ q row = true) := by
  constructor
  · intro same row isMember
    have kept := congrArg (row ∈ ·) same
    simpa [isMember] using kept
  · intro same
    exact filter_congr (fun row isMember => Bool.eq_iff_iff.mpr (same row isMember))

theorem withoutEqual_eq_minus_iff (nonempty : joinColumns ≠ []) :
    withoutEqual joinColumns as bs = minus joinColumns as bs ↔ MatchesByEquality joinColumns as bs := by
  rw [withoutEqual,minus,filter_eq_filter_iff]
  simp only [all_eq_true,decide_eq_true_eq,ne_eq]
  constructor
  · intro same
    constructor
    · intro a isA b isB compatible overlapping
      by_contra noneEqual
      push Not at noneEqual
      rcases (same a isA).mp noneEqual b isB with incompatible | disjoint
      · exact incompatible compatible
      · exact disjoint overlapping
    · intro _ a isA undefined b isB
      by_contra allUndefined
      push Not at allUndefined
      have disjoint : ∀ b' ∈ bs,¬ Compatible joinColumns a b' ∨ ¬ Overlapping joinColumns a b' :=
        fun b' _ => Or.inr (fun ⟨jc,isColumn,defined,_⟩ => defined (undefined jc isColumn))
      exact (same a isA).mpr disjoint b isB (leftKey_eq_iff.mpr (fun jc isColumn => (undefined jc isColumn).trans (allUndefined jc isColumn).symm))
  · intro matches' a isA
    constructor
    · intro noneEqual b isB
      by_contra matching
      push Not at matching
      obtain ⟨b',isB',equal⟩ := matches'.partialMatch a isA b isB matching.1 matching.2
      exact noneEqual b' isB' equal
    · intro noneMatches b isB equal
      rw [leftKey_eq_iff] at equal
      have defined : ∃ jc ∈ joinColumns,a jc.1 ≠ ⊥ := by
        by_contra undefined
        push Not at undefined
        obtain ⟨jc,isColumn,isDefined⟩ := matches'.notUndefined nonempty a isA undefined b isB
        exact isDefined ((equal jc isColumn).symm.trans (undefined jc isColumn))
      obtain ⟨jc,isColumn,isDefined⟩ := defined
      rcases noneMatches b isB with incompatible | disjoint
      · exact incompatible (fun jc isColumn => Or.inr (Or.inr (equal jc isColumn)))
      · exact disjoint ⟨jc,isColumn,isDefined,equal jc isColumn ▸ isDefined⟩

/-- The result is what the specification says if and only if undefined values do not matter. -/
theorem computeMinus_correct_iff (sortedA : SortedLeft joinColumns as) (sortedB : SortedRight joinColumns bs) :
    computeMinus joinColumns as bs = minus joinColumns as bs ↔ MatchesByEquality joinColumns as bs := by
  rw [computeMinus_eq sortedA sortedB]
  by_cases empty : joinColumns = []
  · subst empty
    have disjoint : ∀ a : Fin m → Id,∀ b : Fin n → Id,¬ Overlapping [] a b := by
      rintro a b ⟨jc,isColumn,_⟩
      cases isColumn
    have whole : minus [] as bs = as := by
      simp [minus,disjoint]
    rw [if_pos rfl,whole]
    exact iff_of_true rfl ⟨fun a _ b _ _ overlapping => absurd overlapping (disjoint a b),fun notEmpty => absurd rfl notEmpty⟩
  · rw [if_neg empty]
    exact withoutEqual_eq_minus_iff empty

def twoColumns : List (Fin 2 × Fin 2) := [(0,0),(1,1)]

/-- A left row with an undefined value that occurs on the right. -/
theorem computeMinus_correct_equalRow :
    computeMinus twoColumns [![1,0],![2,3]] [![1,0]] = minus twoColumns [![1,0],![2,3]] [![1,0]] := by
  have sortedA : SortedLeft twoColumns ([![1,0],![2,3]] : List (Fin 2 → Nat)) := by
    simp only [SortedLeft,pairwise_pair]
    decide
  have matches' : MatchesByEquality twoColumns [![1,0],![2,3]] [![1,0]] := ⟨by decide,by decide⟩
  exact (computeMinus_correct_iff sortedA (pairwise_singleton _ _)).mpr matches'

/-- The right row is compatible with the left one, in which the second join column is undefined. -/
theorem computeMinus_keepsCompatibleRow :
    SortedLeft twoColumns ([![1,0]] : List (Fin 2 → Nat)) ∧ SortedRight twoColumns ([![1,2]] : List (Fin 2 → Nat)) ∧
      computeMinus twoColumns ([![1,0]] : List (Fin 2 → Nat)) [![1,2]] = [![1,0]] ∧ minus twoColumns ([![1,0]] : List (Fin 2 → Nat)) [![1,2]] = [] := by
  have sortedA : SortedLeft twoColumns ([![1,0]] : List (Fin 2 → Nat)) := pairwise_singleton _ _
  have sortedB : SortedRight twoColumns ([![1,2]] : List (Fin 2 → Nat)) := pairwise_singleton _ _
  refine ⟨sortedA,sortedB,?_,by decide⟩
  rw [computeMinus_eq sortedA sortedB]
  rfl

end Specification
end Qlever.Minus
