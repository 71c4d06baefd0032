import Qlever.ZipperJoinVisits

/-! The functions of `FindUndefRanges.h` that find the smaller, compatible rows with
UNDEF entries of a range. UNDEF is the smallest id.
-/
namespace Qlever.FindUndefRanges
open ZipperJoin

/-- A function with the interface of `FindUndefRanges.h`: the iterators it yields for a
row and a range, and whether it sets `resultMightBeUnsorted`. -/
abbrev FindUndef (ρ : Type) := ρ → List (Iter ρ) → List (Iter ρ) × Bool

variable {Id : Type} [LinearOrder Id] [OrderBot Id]

def compatible (a b : List Id) : Bool := (a.zip b).all (fun pair => pair.1 = ⊥ || pair.2 = ⊥ || pair.1 = pair.2)

theorem compatible_self (a : List Id) : compatible a a = true := by
  unfold compatible
  induction a with
  | nil => rfl
  | cons x a ih => simpa using ih

theorem compatible_comm (a b : List Id) : compatible a b = compatible b a := by
  unfold compatible
  induction a generalizing b with
  | nil => simp
  | cons x a ih =>
    cases b with
    | nil => rfl
    | cons y b =>
      have columns : (decide (x = ⊥) || decide (y = ⊥) || decide (x = y)) =
          (decide (y = ⊥) || decide (x = ⊥) || decide (y = x)) := by
        simp only [Bool.or_comm (decide (x = ⊥)),eq_comm (a := x) (b := y)]
      simp only [List.zip_cons_cons,List.all_cons,ih b,columns]

/-- The smaller of two compatible rows has an UNDEF column: at the first difference
the smaller id is UNDEF. -/
theorem undef_of_lt (a b : List Id) (width : a.length = b.length) (match' : compatible a b = true)
    (less : a < b) : ⊥ ∈ a := by
  induction a generalizing b with
  | nil =>
    have none : b = [] := List.length_eq_zero_iff.mp width.symm
    exact absurd less (by simp [none])
  | cons x a ih =>
    cases b with
    | nil => simp at width
    | cons y b =>
      simp only [compatible,List.zip_cons_cons,List.all_cons,Bool.and_eq_true,Bool.or_eq_true,
        decide_eq_true_eq] at match'
      rcases List.cons_lt_cons_iff.mp less with smaller | ⟨_,rest⟩
      · rcases match'.1 with (undef | undef) | equal
        · simp [undef]
        · exact absurd smaller (by simp [undef])
        · exact absurd smaller (by simp [equal])
      · exact List.mem_cons_of_mem x (ih b (by simpa using width) match'.2 rest)

/-- The documented contract of the functions in `FindUndefRanges.h`, for rows of `width`
columns: all iterators of the sorted range to smaller, compatible rows that contain an
UNDEF entry, each of them once. -/
def MeetsContract (width : Nat) (find : FindUndef (List Id)) : Prop :=
  ∀ row range,row.length = width → (∀ it ∈ range,it.row.length = width) → Sorted range → range.Nodup →
    (find row range).1.Nodup ∧ ∀ it,it ∈ (find row range).1 ↔
      it ∈ range ∧ it.row < row ∧ compatible it.row row = true ∧ ⊥ ∈ it.row

/-- A callback is admissible for an input if it meets the contract; `noop` requires that
the input contains no UNDEF values. -/
def Admissible (width : Nat) (rows : List (List Id)) : Option (FindUndef (List Id)) → Prop
  | none => ∀ row ∈ rows,⊥ ∉ row
  | some find => MeetsContract width find

/-- In a sorted range `std::lower_bound` ends the prefix of smaller rows. -/
def findSmallerUndefRangesArbitrary : FindUndef (List Id) := fun row range =>
  let found := (range.takeWhile (fun it => it.row < row)).filter (fun it => compatible row it.row)
  (found,!found.isEmpty)

omit [OrderBot Id] in
theorem mem_takeWhile_of_sorted {range : List (Iter (List Id))} (sorted : Sorted range) (row : List Id) (it : Iter (List Id)) :
    it ∈ range.takeWhile (fun it => it.row < row) ↔ it ∈ range ∧ it.row < row := by
  induction range with
  | nil => simp
  | cons first range ih =>
    obtain ⟨below,tail⟩ := List.pairwise_cons.mp sorted
    by_cases less : first.row < row
    · simp only [less,decide_true,List.takeWhile_cons_of_pos,List.mem_cons,ih tail]
      constructor
      · rintro (rfl | ⟨member,less⟩)
        · exact ⟨Or.inl rfl,less⟩
        · exact ⟨Or.inr member,less⟩
      · rintro ⟨rfl | member,less⟩
        · exact Or.inl rfl
        · exact Or.inr ⟨member,less⟩
    · simp only [less,decide_false,Bool.false_eq_true,not_false_eq_true,List.takeWhile_cons_of_neg,List.not_mem_nil,
        List.mem_cons,false_iff]
      rintro ⟨rfl | member,smaller⟩
      · exact less smaller
      · exact less ((below it member).trans_lt smaller)

theorem findSmallerUndefRangesArbitrary_meetsContract (width : Nat) :
    MeetsContract width (findSmallerUndefRangesArbitrary : FindUndef (List Id)) := by
  intro row range rowWidth widths sorted nodup
  refine ⟨(nodup.sublist (List.takeWhile_sublist _)).filter _,?_⟩
  intro it
  simp only [findSmallerUndefRangesArbitrary,List.mem_filter,mem_takeWhile_of_sorted sorted,compatible_comm row]
  constructor
  · rintro ⟨⟨member,less⟩,agree⟩
    exact ⟨member,less,agree,undef_of_lt it.row row (by rw [widths it member,rowWidth]) agree less⟩
  · rintro ⟨member,less,agree,_⟩
    exact ⟨⟨member,less⟩,agree⟩

end Qlever.FindUndefRanges
