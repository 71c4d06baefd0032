import Qlever.SetOfIntervals

/-! The sets of `SetOfIntervals.h` as a Boolean algebra of rows, and the functions that expand a set to one value for each row: `toBitVector`
and the `resultGenerator` of `SparqlExpressionGenerators.h`.
-/
namespace Qlever.SetOfIntervals
open Qlever.Library List

def writeBits (targetSize previousEnd : Nat) : List Interval → Option (List Bool)
  | [] => some []
  | interval :: rest =>
    if interval.2 > targetSize then none
    else
      (writeBits targetSize interval.2 rest).map
        (replicate (interval.1 - previousEnd) false ++ replicate (interval.2 - interval.1) true ++ ·)

/-- The vector starts with `targetSize` times `false`. -/
def toBitVector (set : List Interval) (targetSize : Nat) : Option (List Bool) :=
  (writeBits targetSize 0 set).map (fun written => written ++ replicate (targetSize - written.length) false)

/-- The loop of `resultGenerator` from row `i` on, with the transformed values of `true` and `false`. -/
def generateFrom {α : Type} (trueTransformed falseTransformed : α) (targetSize i : Nat) : List Interval → List α
  | [] => replicate (targetSize - i) falseTransformed
  | interval :: rest =>
    let start := max i interval.1
    replicate (start - i) falseTransformed ++ replicate (interval.2 - start) trueTransformed ++
      generateFrom trueTransformed falseTransformed targetSize (max start interval.2) rest

def resultGenerator {α : Type} (set : List Interval) (targetSize : Nat) (transformation : Bool → α) : List α :=
  generateFrom (transformation true) (transformation false) targetSize 0 set

/-- The invariant of the class, for ends of type `size_t`. -/
structure IsSet (set : List Interval) : Prop where
  ordered : Ordered set
  bounded : ∀ interval ∈ set,interval.2 ≤ upperBound

def membership (set : List Interval) (start stop : Nat) : List Bool := (range' start (stop - start)).map (fun i => decide (Covers set i))

section Expansion
variable {set rest : List Interval} {interval : Interval} {previousEnd targetSize : Nat}

theorem membership_append {start middle stop : Nat} (lower : start ≤ middle) (upper : middle ≤ stop) :
    membership set start middle ++ membership set middle stop = membership set start stop := by
  have joined : range' start (middle - start) ++ range' (start + (middle - start)) (stop - middle) =
      range' start (middle - start + (stop - middle)) := range'_append_1
  rw [show start + (middle - start) = middle by omega,show middle - start + (stop - middle) = stop - start by omega] at joined
  rw [membership,membership,membership,← joined,map_append]

theorem membership_constant {start stop : Nat} {isIn : Bool} (same : ∀ i,start ≤ i → i < stop → (Covers set i ↔ isIn = true)) :
    membership set start stop = replicate (stop - start) isIn := by
  rw [eq_replicate_iff]
  refine ⟨by simp [membership],?_⟩
  intro bit isBit
  obtain ⟨i,inRange,rfl⟩ := List.mem_map.mp isBit
  rw [mem_range'_1] at inRange
  rw [decide_eq_decide.mpr (same i inRange.1 (by omega)),Bool.decide_coe]

theorem membership_congr {start stop : Nat} {other : List Interval} (same : ∀ i,start ≤ i → i < stop → (Covers set i ↔ Covers other i)) :
    membership set start stop = membership other start stop := by
  apply map_congr_left
  intro i inRange
  rw [mem_range'_1] at inRange
  exact decide_eq_decide.mpr (same i inRange.1 (by omega))

theorem membership_cons (ordered : Ordered (interval :: rest)) (start : previousEnd ≤ interval.1) (stop : interval.2 ≤ targetSize) :
    membership (interval :: rest) previousEnd targetSize =
      replicate (interval.1 - previousEnd) false ++ replicate (interval.2 - interval.1) true ++ membership rest interval.2 targetSize := by
  have nonempty := ordered.head
  have later : ∀ i,Covers rest i → interval.2 ≤ i := fun i => ordered.le_of_covers
  rw [← membership_append start (nonempty.le.trans stop),← membership_append nonempty.le stop,← append_assoc]
  congr 1
  · congr 1
    · apply membership_constant
      intro i above below
      simp only [covers_cons,Bool.false_eq_true,iff_false]
      rintro (inside | isLater)
      · omega
      · have after := later i isLater
        omega
    · apply membership_constant
      intro i above below
      simp only [covers_cons,iff_true]
      exact Or.inl ⟨above,below⟩
  · apply membership_congr
    intro i above below
    rw [covers_cons]
    exact or_iff_right (by omega)

theorem membership_nil : membership [] previousEnd targetSize = replicate (targetSize - previousEnd) false := by
  apply membership_constant
  simp

theorem writeBits_eq (ordered : Ordered set) (start : ∀ interval ∈ set,previousEnd ≤ interval.1) (small : previousEnd ≤ targetSize) :
    (writeBits targetSize previousEnd set).map (fun written => written ++ replicate (targetSize - previousEnd - written.length) false) =
      if ∀ interval ∈ set,interval.2 ≤ targetSize then some (membership set previousEnd targetSize) else none := by
  induction set generalizing previousEnd with
  | nil => simp [writeBits,membership_nil]
  | cons interval rest ih =>
    have nonempty := ordered.head
    have before := start interval mem_cons_self
    rw [writeBits]
    split
    next large =>
      rw [if_neg (fun fits => by have := fits interval mem_cons_self; omega)]
      rfl
    next fits =>
      have tail := ih ordered.tail (fun other isMember => ordered.head_le isMember) (by omega : interval.2 ≤ targetSize)
      cases isWritten : writeBits targetSize interval.2 rest with
      | none =>
        rw [isWritten] at tail
        split at tail
        next => cases tail
        next tooLarge =>
          rw [if_neg (fun all => tooLarge (forall_mem_cons.mp all).2)]
          rfl
      | some written =>
        rw [isWritten] at tail
        split at tail
        next all =>
          rw [if_pos (forall_mem_cons.mpr ⟨by omega,all⟩),membership_cons ordered before (by omega),← Option.some_inj.mp tail]
          simp only [Option.map_some,append_assoc,length_append,length_replicate]
          congr 5
          omega
        next => cases tail

theorem toBitVector_eq (ordered : Ordered set) (targetSize : Nat) :
    toBitVector set targetSize = if ∀ interval ∈ set,interval.2 ≤ targetSize then some (membership set 0 targetSize) else none :=
  writeBits_eq ordered (fun _ _ => Nat.zero_le _) (Nat.zero_le _)

theorem generateFrom_getElem? {α : Type} (trueTransformed falseTransformed : α) {i : Nat} (ordered : Ordered set)
    (start : ∀ interval ∈ set,i ≤ interval.1) (k : Nat) (inside : i + k < targetSize) :
    (generateFrom trueTransformed falseTransformed targetSize i set)[k]? =
      some (if Covers set (i + k) then trueTransformed else falseTransformed) := by
  induction set generalizing i k with
  | nil =>
    rw [generateFrom,getElem?_replicate,if_pos (by omega),if_neg covers_nil]
  | cons interval rest ih =>
    have nonempty := ordered.head
    have before := start interval mem_cons_self
    have later : Covers rest (i + k) → interval.2 ≤ i + k := ordered.le_of_covers
    simp only [generateFrom,max_eq_right before,max_eq_right nonempty.le,covers_cons,append_assoc]
    rcases Nat.lt_or_ge (i + k) interval.1 with isBefore | notBefore
    · rw [getElem?_append_left (by simp; omega),getElem?_replicate,if_pos (by omega),if_neg]
      rintro (isIn | isLater)
      · omega
      · have after := later isLater
        omega
    rw [getElem?_append_right (by simp; omega),length_replicate]
    rcases Nat.lt_or_ge (i + k) interval.2 with isIn | isAfter
    · rw [getElem?_append_left (by simp; omega),getElem?_replicate,if_pos (by omega),if_pos (Or.inl ⟨notBefore,isIn⟩)]
    · rw [getElem?_append_right (by simp; omega),length_replicate]
      have rows := ih ordered.tail (fun other isMember => ordered.head_le isMember) (k - (interval.1 - i) - (interval.2 - interval.1)) (by omega)
      rw [show interval.2 + (k - (interval.1 - i) - (interval.2 - interval.1)) = i + k by omega] at rows
      rw [rows]
      congr 1
      exact if_congr (or_iff_right (by omega)).symm rfl rfl

theorem resultGenerator_getElem? {α : Type} (ordered : Ordered set) (targetSize : Nat) (transformation : Bool → α) {i : Nat} (inside : i < targetSize) :
    (resultGenerator set targetSize transformation)[i]? = some (transformation (decide (Covers set i))) := by
  have rows := generateFrom_getElem? (transformation true) (transformation false) ordered (fun _ _ => Nat.zero_le _) i (by omega : 0 + i < targetSize)
  rw [Nat.zero_add] at rows
  rw [resultGenerator,rows]
  by_cases isIn : Covers set i <;> simp [isIn]

end Expansion

section Algebra
variable {first second set : List Interval}

theorem IsSet.lt (isSet : IsSet set) {i : Nat} (isIn : Covers set i) : i < upperBound := by
  obtain ⟨interval,isMember,_,below⟩ := isIn
  exact below.trans_le (isSet.bounded interval isMember)

theorem isSet_of_lt (ordered : Ordered set) (below : ∀ i,Covers set i → i < upperBound) : IsSet set := by
  refine ⟨ordered,?_⟩
  intro interval isMember
  have nonempty := ordered.nonempty interval isMember
  have last := below (interval.2 - 1) ⟨interval,isMember,by omega,by omega⟩
  omega

theorem union_isSet (isFirst : IsSet first) (isSecond : IsSet second) :
    ∃ result,union first second = some result ∧ IsSet result ∧ ∀ i,Covers result i ↔ Covers first i ∨ Covers second i := by
  obtain ⟨result,isResult,separated,covers⟩ := union_spec isFirst.ordered isSecond.ordered
  refine ⟨result,isResult,isSet_of_lt separated.ordered ?_,covers⟩
  intro i isIn
  exact ((covers i).mp isIn).elim isFirst.lt isSecond.lt

theorem intersection_isSet (isFirst : IsSet first) (isSecond : IsSet second) :
    ∃ result,intersection first second = some result ∧ IsSet result ∧ ∀ i,Covers result i ↔ Covers first i ∧ Covers second i := by
  obtain ⟨result,isResult,separated,covers⟩ := intersection_spec isFirst.ordered isSecond.ordered
  refine ⟨result,isResult,isSet_of_lt separated.ordered ?_,covers⟩
  intro i isIn
  exact isFirst.lt ((covers i).mp isIn).1

theorem complement_isSet (isSet : IsSet set) :
    ∃ result,complement set = some result ∧ IsSet result ∧ ∀ i,Covers result i ↔ i < upperBound ∧ ¬ Covers set i := by
  obtain ⟨result,isResult,separated,covers⟩ := complement_spec isSet.ordered isSet.bounded
  refine ⟨result,isResult,isSet_of_lt separated.ordered ?_,covers⟩
  intro i isIn
  exact ((covers i).mp isIn).1

/-- The operations are those of the Boolean algebra of the rows below the upper bound, and an expanded set has `true` at its rows. -/
theorem booleanAlgebra (isFirst : IsSet first) (isSecond : IsSet second) (n : Nat) :
    (∃ result,union first second = some result ∧ IsSet result ∧ ∀ i < n,Covers result i ↔ Covers first i ∨ Covers second i) ∧
      (∃ result,intersection first second = some result ∧ IsSet result ∧ ∀ i < n,Covers result i ↔ Covers first i ∧ Covers second i) ∧
      (∃ result,complement first = some result ∧ IsSet result ∧ (∀ i < upperBound,Covers result i ↔ ¬ Covers first i) ∧
        ∃ back,complement result = some back ∧ IsSet back ∧ ∀ i < upperBound,Covers back i ↔ Covers first i) ∧
      toBitVector first n = (if ∀ interval ∈ first,interval.2 ≤ n then some (membership first 0 n) else none) ∧
      ∀ {α : Type} (transformation : Bool → α) (i : Nat),i < n →
        (resultGenerator first n transformation)[i]? = some (transformation (decide (Covers first i))) := by
  obtain ⟨joined,isUnion,joinedSet,inUnion⟩ := union_isSet isFirst isSecond
  obtain ⟨common,isIntersection,commonSet,inIntersection⟩ := intersection_isSet isFirst isSecond
  obtain ⟨result,isComplement,resultSet,inComplement⟩ := complement_isSet isFirst
  obtain ⟨back,isBack,backSet,inBack⟩ := complement_isSet resultSet
  refine ⟨⟨joined,isUnion,joinedSet,fun i _ => inUnion i⟩,⟨common,isIntersection,commonSet,fun i _ => inIntersection i⟩,
    ⟨result,isComplement,resultSet,?_,back,isBack,backSet,?_⟩,toBitVector_eq isFirst.ordered n,
    fun transformation i inside => resultGenerator_getElem? isFirst.ordered n transformation inside⟩
  · intro i below
    rw [inComplement]
    exact and_iff_right below
  · intro i below
    rw [inBack,inComplement,and_iff_right below,not_and]
    exact ⟨fun isIn => by_contra fun notIn => isIn below notIn,fun isIn _ => not_not_intro isIn⟩

theorem twoIntervals : IsSet [(0,2),(2,5)] :=
  ⟨⟨by decide,by decide⟩,by decide⟩

theorem booleanAlgebra_twoIntervals : IsSet [(0,2),(2,5)] ∧ toBitVector [(0,2),(2,5)] 6 = some (membership [(0,2),(2,5)] 0 6) :=
  ⟨twoIntervals,(booleanAlgebra twoIntervals twoIntervals 6).2.2.2.1.trans (if_pos (by decide))⟩

/-- `toBitVector` fails for the complement of a set, whose last interval ends at the upper bound. -/
theorem toBitVector_complement : ¬ ∀ set result,IsSet set → complement set = some result → ∀ n,toBitVector result n = some (membership result 0 n) := by
  intro agrees
  have fails := agrees [(0,2),(2,5)] [(5,upperBound)] twoIntervals (by
    rw [complement,sortAndCheck_eq twoIntervals.ordered]
    decide) 6
  cases fails

end Algebra
end Qlever.SetOfIntervals
