import Mathlib

/-! Lists of half-open intervals of positions. -/
namespace Qlever.Library

abbrev Interval := Nat × Nat

def Covers (intervals : List Interval) (i : Nat) : Prop := ∃ interval ∈ intervals,interval.1 ≤ i ∧ i < interval.2

instance (intervals : List Interval) (i : Nat) : Decidable (Covers intervals i) :=
  inferInstanceAs (Decidable (∃ interval ∈ intervals,interval.1 ≤ i ∧ i < interval.2))

structure Ordered (intervals : List Interval) : Prop where
  nonempty : ∀ interval ∈ intervals,interval.1 < interval.2
  ascending : intervals.Pairwise (fun first second => first.2 ≤ second.1)

structure Separated (intervals : List Interval) : Prop where
  nonempty : ∀ interval ∈ intervals,interval.1 < interval.2
  gaps : intervals.Pairwise (fun first second => first.2 < second.1)

def mergeAdjacent (current : Interval) : List Interval → List Interval
  | [] => [current]
  | next :: rest => if next.1 = current.2 then mergeAdjacent (current.1,next.2) rest else current :: mergeAdjacent next rest

def mergeAllAdjacent : List Interval → List Interval
  | [] => []
  | current :: rest => mergeAdjacent current rest

section Basic
variable {intervals rest : List Interval} {interval : Interval} {i : Nat}

@[simp] theorem covers_nil : ¬ Covers [] i := by
  rintro ⟨interval,isMember,_⟩
  cases isMember

@[simp] theorem covers_cons : Covers (interval :: rest) i ↔ (interval.1 ≤ i ∧ i < interval.2) ∨ Covers rest i := by
  simp [Covers]

@[simp] theorem covers_append {front back : List Interval} : Covers (front ++ back) i ↔ Covers front i ∨ Covers back i := by
  simp [Covers,or_and_right,exists_or]

theorem Covers.perm {other : List Interval} (same : intervals.Perm other) : Covers intervals i ↔ Covers other i := by
  unfold Covers
  simp only [same.mem_iff]

theorem Separated.ordered (separated : Separated intervals) : Ordered intervals :=
  ⟨separated.nonempty,separated.gaps.imp (fun gap => gap.le)⟩

theorem ordered_nil : Ordered [] := ⟨by simp,.nil⟩

theorem separated_nil : Separated [] := ⟨by simp,.nil⟩

section
variable (ordered : Ordered (interval :: rest))
include ordered

theorem Ordered.head : interval.1 < interval.2 :=
  ordered.nonempty interval List.mem_cons_self

theorem Ordered.tail : Ordered rest :=
  ⟨fun other isMember => ordered.nonempty other (List.mem_cons_of_mem _ isMember),(List.pairwise_cons.mp ordered.ascending).2⟩

theorem Ordered.head_le {other : Interval} (isMember : other ∈ rest) : interval.2 ≤ other.1 :=
  (List.pairwise_cons.mp ordered.ascending).1 other isMember

theorem Ordered.le_of_covers (covered : Covers rest i) : interval.2 ≤ i := by
  obtain ⟨other,isMember,lower,_⟩ := covered
  exact (ordered.head_le isMember).trans lower

end

theorem Ordered.cons (ordered : Ordered rest) (nonempty : interval.1 < interval.2) (before : ∀ other ∈ rest,interval.2 ≤ other.1) :
    Ordered (interval :: rest) where
  nonempty := by
    intro other isMember
    rcases List.mem_cons.mp isMember with rfl | isMember
    · exact nonempty
    · exact ordered.nonempty other isMember
  ascending := List.pairwise_cons.mpr ⟨before,ordered.ascending⟩

theorem Separated.cons (separated : Separated rest) (nonempty : interval.1 < interval.2) (before : ∀ other ∈ rest,interval.2 < other.1) :
    Separated (interval :: rest) where
  nonempty := by
    intro other isMember
    rcases List.mem_cons.mp isMember with rfl | isMember
    · exact nonempty
    · exact separated.nonempty other isMember
  gaps := List.pairwise_cons.mpr ⟨before,separated.gaps⟩

theorem Separated.start_le (separated : Separated intervals) {point : Nat} (isMember : interval ∈ intervals)
    (constant : ∀ i,point ≤ i → i < interval.1 → Covers intervals i) : interval.1 ≤ point := by
  by_contra after
  obtain ⟨other,isOther,lower,upper⟩ := constant (interval.1 - 1) (by omega) (by omega)
  have nonempty := separated.nonempty interval isMember
  have different : other ≠ interval := by
    rintro rfl
    omega
  have gap : interval.2 < other.1 ∨ other.2 < interval.1 := by
    have symmetric : intervals.Pairwise (fun first second => first.2 < second.1 ∨ second.2 < first.1) := separated.gaps.imp Or.inl
    have swap : Std.Symm (fun (first second : Interval) => first.2 < second.1 ∨ second.2 < first.1) := ⟨fun _ _ gap => gap.symm⟩
    exact symmetric.forall isMember isOther different.symm
  omega

end Basic

section Merge
variable {rest : List Interval} {current : Interval}

theorem covers_mergeAdjacent (valid : ∀ interval ∈ current :: rest,interval.1 ≤ interval.2) (i : Nat) :
    Covers (mergeAdjacent current rest) i ↔ Covers (current :: rest) i := by
  induction rest generalizing current with
  | nil => rfl
  | cons next rest ih =>
    have first := valid current List.mem_cons_self
    have second := valid next (List.mem_cons_of_mem _ List.mem_cons_self)
    have tail : ∀ interval ∈ next :: rest,interval.1 ≤ interval.2 := fun interval isMember => valid interval (List.mem_cons_of_mem _ isMember)
    rw [mergeAdjacent]
    split
    next adjacent =>
      rw [ih (List.forall_mem_cons.mpr ⟨by simp only; omega,(List.forall_mem_cons.mp tail).2⟩)]
      simp only [covers_cons,← or_assoc]
      apply or_congr_left
      omega
    next =>
      rw [covers_cons,ih tail]
      simp only [covers_cons]

variable {intervals : List Interval}

theorem covers_mergeAllAdjacent (valid : ∀ interval ∈ intervals,interval.1 ≤ interval.2) (i : Nat) :
    Covers (mergeAllAdjacent intervals) i ↔ Covers intervals i := by
  cases intervals with
  | nil => rfl
  | cons current rest => exact covers_mergeAdjacent valid i

theorem start_mergeAdjacent (ordered : Ordered (current :: rest)) :
    ∀ interval ∈ mergeAdjacent current rest,current.1 ≤ interval.1 := by
  induction rest generalizing current with
  | nil => simp [mergeAdjacent]
  | cons next rest ih =>
    have first := ordered.head
    have second := ordered.tail.head
    rw [mergeAdjacent]
    split
    next adjacent =>
      have joined : Ordered ((current.1,next.2) :: rest) :=
        ordered.tail.tail.cons (by simp only; omega) (fun other isMember => ordered.tail.head_le isMember)
      exact ih joined
    next =>
      intro interval isMember
      rcases List.mem_cons.mp isMember with rfl | isMember
      · exact le_refl _
      · have later := ih ordered.tail interval isMember
        have before := ordered.head_le List.mem_cons_self
        omega

theorem separated_mergeAdjacent (ordered : Ordered (current :: rest)) : Separated (mergeAdjacent current rest) := by
  induction rest generalizing current with
  | nil => exact separated_nil.cons ordered.head (by simp)
  | cons next rest ih =>
    have first := ordered.head
    have second := ordered.tail.head
    rw [mergeAdjacent]
    split
    next adjacent =>
      have joined : Ordered ((current.1,next.2) :: rest) :=
        ordered.tail.tail.cons (by simp only; omega) (fun other isMember => ordered.tail.head_le isMember)
      exact ih joined
    next apart =>
      apply (ih ordered.tail).cons first
      intro other isMember
      have later := start_mergeAdjacent ordered.tail other isMember
      have before := ordered.head_le List.mem_cons_self
      omega

theorem mergeAllAdjacent_spec (ordered : Ordered intervals) :
    Separated (mergeAllAdjacent intervals) ∧ ∀ i,Covers (mergeAllAdjacent intervals) i ↔ Covers intervals i := by
  refine ⟨?_,covers_mergeAllAdjacent (fun interval isMember => (ordered.nonempty interval isMember).le)⟩
  cases intervals with
  | nil => exact separated_nil
  | cons current rest => exact separated_mergeAdjacent ordered

end Merge
end Qlever.Library
