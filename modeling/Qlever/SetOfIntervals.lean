import Qlever.Library.Intervals

/-! The sets of row indices of `SetOfIntervals.cpp`. The operations sort and check their arguments, walk over both of them
with the zipper algorithm and join adjacent intervals of the result.
-/
namespace Qlever.SetOfIntervals
open Qlever.Library

def upperBound : Nat := 2 ^ 64 - 1

def sortAndCheckDisjointAndNonempty (input : List Interval) : Option (List Interval) :=
  let vec := input.insertionSort (fun a b => a.1 ≤ b.1)
  if vec.all (fun interval => interval.2 > interval.1) && (vec.zip vec.tail).all (fun pair => pair.2.1 ≥ pair.1.2) then some vec else none

/-- The loop of `CheckSortedAndDisjointAndSimplify` with the interval `current`. -/
def simplifyFrom (current : Interval) : List Interval → Option (List Interval)
  | [] => some [current]
  | next :: rest =>
    if next.1 < current.2 then none
    else if next.1 = current.2 then simplifyFrom (current.1,next.2) rest
    else (simplifyFrom next rest).map (current :: ·)

def checkSortedAndDisjointAndSimplify : List Interval → Option (List Interval)
  | [] => some []
  | current :: rest => simplifyFrom current rest

/-- The intersection of two intervals, truncated such that it lies after `minIdxNotChecked`. -/
def truncatedIntersection (minIdxNotChecked : Nat) (a b : Interval) : Interval :=
  let itSmaller := if a.1 < b.1 then a else b
  let itGreaterEq := if a.1 < b.1 then b else a
  (max itGreaterEq.1 minIdxNotChecked,min itGreaterEq.2 itSmaller.2)

theorem truncatedIntersection_eq (minIdxNotChecked : Nat) (a b : Interval) :
    truncatedIntersection minIdxNotChecked a b = (max (max a.1 b.1) minIdxNotChecked,min a.2 b.2) := by
  unfold truncatedIntersection
  split <;> ext <;> simp only <;> omega

/-- The loop of `Intersection`. -/
def intersectionFrom (minIdxNotChecked : Nat) : List Interval → List Interval → List Interval
  | a :: as,b :: bs =>
    let intersection := truncatedIntersection minIdxNotChecked a b
    let next := max minIdxNotChecked intersection.2
    let result := if intersection.1 < intersection.2 then [intersection] else []
    result ++ intersectionFrom next (if next ≥ a.2 then as else a :: as) (if next ≥ b.2 then bs else b :: bs)
  | _,_ => []
termination_by as bs => as.length + bs.length
decreasing_by
  simp only [truncatedIntersection_eq]
  split <;> split <;> simp only [List.length_cons] <;> omega

def intersection (first second : List Interval) : Option (List Interval) := do
  let first ← sortAndCheckDisjointAndNonempty first
  let second ← sortAndCheckDisjointAndNonempty second
  checkSortedAndDisjointAndSimplify (← sortAndCheckDisjointAndNonempty (intersectionFrom 0 first second))

/-- The interval after `truncateAndAppendInterval`, if it is not empty. -/
def truncated (minIdxNotChecked : Nat) (interval : Interval) : List Interval :=
  if max minIdxNotChecked interval.1 < interval.2 then [(max minIdxNotChecked interval.1,interval.2)] else []

def appendRemaining (minIdxNotChecked : Nat) : List Interval → List Interval
  | [] => []
  | interval :: rest => truncated minIdxNotChecked interval ++ appendRemaining (max minIdxNotChecked interval.2) rest

/-- The loop of `Union`. -/
def unionFrom (minIdxNotChecked : Nat) : List Interval → List Interval → List Interval
  | a :: as,b :: bs =>
    if a.1 < b.1 then
      if a.2 ≤ b.1 then truncated minIdxNotChecked a ++ unionFrom (max minIdxNotChecked a.2) as (b :: bs)
      else truncated minIdxNotChecked (a.1,max b.2 a.2) ++ unionFrom (max minIdxNotChecked (max b.2 a.2)) as bs
    else
      if b.2 ≤ a.1 then truncated minIdxNotChecked b ++ unionFrom (max minIdxNotChecked b.2) (a :: as) bs
      else truncated minIdxNotChecked (b.1,max a.2 b.2) ++ unionFrom (max minIdxNotChecked (max a.2 b.2)) as bs
  | as,[] => appendRemaining minIdxNotChecked as
  | [],bs => appendRemaining minIdxNotChecked bs
termination_by as bs => as.length + bs.length

def union (first second : List Interval) : Option (List Interval) := do
  let first ← sortAndCheckDisjointAndNonempty first
  let second ← sortAndCheckDisjointAndNonempty second
  checkSortedAndDisjointAndSimplify (← sortAndCheckDisjointAndNonempty (unionFrom 0 first second))

/-- The loop of `Complement`. -/
def complementFrom (lastElement : Nat) : List Interval → Option (List Interval)
  | [] =>
    if lastElement > upperBound then none
    else some (if lastElement < upperBound then [(lastElement,upperBound)] else [])
  | interval :: rest => (complementFrom interval.2 rest).map ((if lastElement < interval.1 then [(lastElement,interval.1)] else []) ++ ·)

def complement (set : List Interval) : Option (List Interval) := do
  complementFrom 0 (← sortAndCheckDisjointAndNonempty set)

section Checks
variable {intervals : List Interval}

theorem zip_tail_ordered (ordered : Ordered intervals) : (intervals.zip intervals.tail).all (fun pair => pair.2.1 ≥ pair.1.2) = true := by
  induction intervals with
  | nil => rfl
  | cons interval rest ih =>
    cases rest with
    | nil => rfl
    | cons next rest =>
      have before := ordered.head_le List.mem_cons_self
      have later := ih ordered.tail
      simp only [List.tail_cons,List.zip_cons_cons,List.all_cons,Bool.and_eq_true,decide_eq_true_eq] at later ⊢
      exact ⟨before,later⟩

theorem sortAndCheck_eq (ordered : Ordered intervals) : sortAndCheckDisjointAndNonempty intervals = some intervals := by
  have sorted : intervals.insertionSort (fun a b => a.1 ≤ b.1) = intervals := by
    apply List.Pairwise.insertionSort_eq
    apply ordered.ascending.imp_of_mem
    intro first second isFirst _ before
    exact ((ordered.nonempty first isFirst).le).trans before
  have nonempty : intervals.all (fun interval => interval.2 > interval.1) = true := by
    rw [List.all_eq_true]
    intro interval isMember
    exact decide_eq_true (ordered.nonempty interval isMember)
  rw [sortAndCheckDisjointAndNonempty]
  simp only [sorted,nonempty,zip_tail_ordered ordered,Bool.and_self,if_true]

theorem simplifyFrom_eq {current : Interval} (ordered : Ordered (current :: intervals)) :
    simplifyFrom current intervals = some (mergeAdjacent current intervals) := by
  induction intervals generalizing current with
  | nil => rfl
  | cons next rest ih =>
    have first := ordered.head
    have second := ordered.tail.head
    have before := ordered.head_le List.mem_cons_self
    rw [simplifyFrom,if_neg (by omega),mergeAdjacent]
    split
    next adjacent =>
      apply ih
      exact ordered.tail.tail.cons (by simp only; omega) (fun other isMember => ordered.tail.head_le isMember)
    next =>
      rw [ih ordered.tail]
      rfl

theorem simplify_ordered (ordered : Ordered intervals) :
    ∃ result,(do checkSortedAndDisjointAndSimplify (← sortAndCheckDisjointAndNonempty intervals)) = some result ∧ Separated result ∧
      ∀ i,Covers result i ↔ Covers intervals i := by
  rw [sortAndCheck_eq ordered]
  refine ⟨mergeAllAdjacent intervals,?_,mergeAllAdjacent_spec ordered⟩
  cases intervals with
  | nil => rfl
  | cons current rest => exact simplifyFrom_eq ordered

end Checks

/-- What the zipper has appended from a row index on: ordered intervals that cover the rows of the given kind. -/
structure Walked (minIdxNotChecked : Nat) (wanted : Nat → Prop) (result : List Interval) : Prop where
  ordered : Ordered result
  start : ∀ interval ∈ result,minIdxNotChecked ≤ interval.1
  covers : ∀ i,Covers result i ↔ minIdxNotChecked ≤ i ∧ wanted i

section Walk
variable {minIdxNotChecked : Nat} {wanted later : Nat → Prop} {result : List Interval}

theorem walked_nil (none : ∀ i,minIdxNotChecked ≤ i → ¬ wanted i) : Walked minIdxNotChecked wanted [] where
  ordered := ordered_nil
  start := by simp
  covers := by
    intro i
    simp only [covers_nil,false_iff,not_and]
    exact none i

theorem Walked.congr (walked : Walked minIdxNotChecked later result) (same : ∀ i,minIdxNotChecked ≤ i → (later i ↔ wanted i)) :
    Walked minIdxNotChecked wanted result where
  ordered := walked.ordered
  start := walked.start
  covers := by
    intro i
    rw [walked.covers]
    exact and_congr_right (same i)

theorem Walked.step {next : Nat} {interval : Interval} (walked : Walked next later result) (ends : next = max minIdxNotChecked interval.2)
    (same : ∀ i,minIdxNotChecked ≤ i → (wanted i ↔ (interval.1 ≤ i ∧ i < interval.2) ∨ (next ≤ i ∧ later i))) :
    Walked minIdxNotChecked wanted (truncated minIdxNotChecked interval ++ result) := by
  have covered : ∀ i,Covers (truncated minIdxNotChecked interval ++ result) i ↔ minIdxNotChecked ≤ i ∧ wanted i := by
    intro i
    have atStart : Covers (truncated minIdxNotChecked interval) i ↔ minIdxNotChecked ≤ i ∧ interval.1 ≤ i ∧ i < interval.2 := by
      unfold truncated
      split
      · simp only [covers_cons,covers_nil,or_false]
        omega
      · simp only [covers_nil,false_iff]
        omega
    rw [covers_append,walked.covers,atStart]
    constructor
    · rintro (⟨above,inside⟩ | ⟨above,isLater⟩)
      · exact ⟨above,(same i above).mpr (Or.inl inside)⟩
      · have atLeast : minIdxNotChecked ≤ i := by omega
        exact ⟨atLeast,(same i atLeast).mpr (Or.inr ⟨above,isLater⟩)⟩
    · rintro ⟨above,isWanted⟩
      rcases (same i above).mp isWanted with inside | isLater
      · exact Or.inl ⟨above,inside⟩
      · exact Or.inr isLater
  unfold truncated at covered ⊢
  split at covered
  next nonempty =>
    rw [if_pos nonempty]
    refine ⟨walked.ordered.cons nonempty ?_,?_,covered⟩
    · intro other isMember
      have start := walked.start other isMember
      simp only
      omega
    · intro other isMember
      rcases List.mem_cons.mp isMember with rfl | isMember
      · exact Nat.le_max_left _ _
      · have start := walked.start other isMember
        omega
  next empty =>
    rw [if_neg empty]
    refine ⟨walked.ordered,?_,covered⟩
    intro other isMember
    have start := walked.start other isMember
    omega

end Walk

section Operations
variable {first second : List Interval} {rest : List Interval}

theorem appendRemaining_walked (ordered : Ordered rest) (minIdxNotChecked : Nat) :
    Walked minIdxNotChecked (Covers rest) (appendRemaining minIdxNotChecked rest) := by
  induction rest generalizing minIdxNotChecked with
  | nil => exact walked_nil (by simp)
  | cons interval rest ih =>
    apply (ih ordered.tail (max minIdxNotChecked interval.2)).step rfl
    intro i above
    rw [covers_cons]
    apply or_congr_right
    constructor
    · intro covered
      have after := ordered.le_of_covers covered
      exact ⟨by omega,covered⟩
    · exact And.right

theorem ordered_pair {a b : Interval} {as bs : List Interval} (isFirst : Ordered (a :: as)) (isSecond : Ordered (b :: bs)) (i : Nat) :
    (Covers as i → a.2 ≤ i) ∧ (Covers bs i → b.2 ≤ i) ∧ a.1 < a.2 ∧ b.1 < b.2 :=
  ⟨isFirst.le_of_covers,isSecond.le_of_covers,isFirst.head,isSecond.head⟩

theorem unionFrom_walked (isFirst : Ordered first) (isSecond : Ordered second) (minIdxNotChecked : Nat) :
    Walked minIdxNotChecked (fun i => Covers first i ∨ Covers second i) (unionFrom minIdxNotChecked first second) := by
  fun_induction unionFrom minIdxNotChecked first second with
  | case1 m a as b bs less apart ih =>
    apply (ih isFirst.tail isSecond).step rfl
    intro i above
    obtain ⟨afterFirst,afterSecond,nonempty,nonempty'⟩ := ordered_pair isFirst isSecond i
    simp only [covers_cons,max_le_iff]
    grind
  | case2 m a as b bs less overlap ih | case4 m a as b bs notLess overlap ih =>
    apply (ih isFirst.tail isSecond.tail).step rfl
    intro i above
    obtain ⟨afterFirst,afterSecond,nonempty,nonempty'⟩ := ordered_pair isFirst isSecond i
    simp only [covers_cons,max_le_iff,lt_max_iff]
    grind
  | case3 m a as b bs notLess apart ih =>
    apply (ih isFirst isSecond.tail).step rfl
    intro i above
    obtain ⟨afterFirst,afterSecond,nonempty,nonempty'⟩ := ordered_pair isFirst isSecond i
    simp only [covers_cons,max_le_iff]
    grind
  | case5 m as =>
    simpa using appendRemaining_walked isFirst m
  | case6 m bs =>
    simpa using appendRemaining_walked isSecond m

variable {interval : Interval}

theorem pass_iff {next : Nat} :
    ∀ i,next ≤ i → (Covers (if next ≥ interval.2 then rest else interval :: rest) i ↔ Covers (interval :: rest) i) := by
  intro i above
  split
  · rw [covers_cons]
    constructor
    · exact Or.inr
    · rintro (inside | covered)
      · omega
      · exact covered
  · rfl

theorem Ordered.pass (ordered : Ordered (interval :: rest)) (next : Nat) :
    Ordered (if next ≥ interval.2 then rest else interval :: rest) := by
  split
  · exact ordered.tail
  · exact ordered

theorem intersectionFrom_walked (isFirst : Ordered first) (isSecond : Ordered second) (minIdxNotChecked : Nat) :
    Walked minIdxNotChecked (fun i => Covers first i ∧ Covers second i) (intersectionFrom minIdxNotChecked first second) := by
  fun_induction intersectionFrom minIdxNotChecked first second with
  | case1 m a as b bs intersection next result ih =>
    have rest : Walked next (fun i => Covers (a :: as) i ∧ Covers (b :: bs) i)
        (intersectionFrom next (if next ≥ a.2 then as else a :: as) (if next ≥ b.2 then bs else b :: bs)) :=
      (ih (Ordered.pass isFirst next) (Ordered.pass isSecond next)).congr (fun i above => and_congr (pass_iff i above) (pass_iff i above))
    have appended : result = truncated m (max a.1 b.1,min a.2 b.2) := by
      simp only [result,intersection,truncatedIntersection_eq,truncated,max_comm m,dite_eq_ite]
    rw [appended]
    apply rest.step
    · simp only [next,intersection,truncatedIntersection_eq]
    · intro i above
      have afterFirst : Covers as i → a.2 ≤ i := isFirst.le_of_covers
      have afterSecond : Covers bs i → b.2 ≤ i := isSecond.le_of_covers
      have ends : next ≤ i ↔ a.2 ≤ i ∨ b.2 ≤ i := by
        simp only [next,intersection,truncatedIntersection_eq,max_le_iff,min_le_iff]
        omega
      simp only [covers_cons,max_le_iff,lt_min_iff,ends]
      grind
  | case2 m as bs notBoth =>
    apply walked_nil
    intro i above
    rintro ⟨inFirst,inSecond⟩
    cases as with
    | nil => exact covers_nil inFirst
    | cons a as =>
      cases bs with
      | nil => exact covers_nil inSecond
      | cons b bs => exact notBoth a as b bs rfl rfl

variable {set : List Interval}

theorem complementFrom_walked {lastElement : Nat} (ordered : Ordered set) (after : ∀ interval ∈ set,lastElement ≤ interval.1)
    (bounded : ∀ interval ∈ set,interval.2 ≤ upperBound) (small : lastElement ≤ upperBound) :
    ∃ result,complementFrom lastElement set = some result ∧ Separated result ∧ (∀ interval ∈ result,lastElement ≤ interval.1) ∧
      ∀ i,Covers result i ↔ lastElement ≤ i ∧ i < upperBound ∧ ¬ Covers set i := by
  induction set generalizing lastElement with
  | nil =>
    rw [complementFrom,if_neg (by omega)]
    refine ⟨_,rfl,?_,?_,?_⟩
    · split
      next less => exact separated_nil.cons less (by simp)
      next => exact separated_nil
    · split <;> simp
    · intro i
      split
      · simp
      · simp only [covers_nil,not_false_eq_true,and_true,false_iff]
        omega
  | cons interval rest ih =>
    have nonempty := ordered.head
    have start := after interval List.mem_cons_self
    obtain ⟨result,isResult,isSeparated,starts,covers⟩ := ih ordered.tail (fun other isMember => ordered.head_le isMember)
      (List.forall_mem_cons.mp bounded).2 (bounded interval List.mem_cons_self)
    rw [complementFrom,isResult]
    have later : ∀ i,Covers rest i → interval.2 ≤ i := fun i => ordered.le_of_covers
    split
    next less =>
      refine ⟨_,rfl,isSeparated.cons less ?_,?_,?_⟩
      · intro other isMember
        have atLeast := starts other isMember
        simp only
        omega
      · intro other isMember
        rcases List.mem_cons.mp isMember with rfl | isMember
        · exact Nat.le_refl _
        · have atLeast := starts other isMember
          omega
      · intro i
        have far := bounded interval List.mem_cons_self
        have isLater := later i
        simp only [List.cons_append,List.nil_append,covers_cons,covers]
        grind
    next notLess =>
      refine ⟨_,rfl,isSeparated,?_,?_⟩
      · intro other isMember
        have atLeast := starts other isMember
        omega
      · intro i
        have isLater := later i
        simp only [List.nil_append,covers_cons,covers]
        grind

theorem union_spec (isFirst : Ordered first) (isSecond : Ordered second) :
    ∃ result,union first second = some result ∧ Separated result ∧ ∀ i,Covers result i ↔ Covers first i ∨ Covers second i := by
  have walked := unionFrom_walked isFirst isSecond 0
  obtain ⟨result,isResult,separated,covers⟩ := simplify_ordered walked.ordered
  refine ⟨result,?_,separated,?_⟩
  · rw [union,sortAndCheck_eq isFirst,sortAndCheck_eq isSecond]
    exact isResult
  · intro i
    simp [covers,walked.covers]

theorem intersection_spec (isFirst : Ordered first) (isSecond : Ordered second) :
    ∃ result,intersection first second = some result ∧ Separated result ∧ ∀ i,Covers result i ↔ Covers first i ∧ Covers second i := by
  have walked := intersectionFrom_walked isFirst isSecond 0
  obtain ⟨result,isResult,separated,covers⟩ := simplify_ordered walked.ordered
  refine ⟨result,?_,separated,?_⟩
  · rw [intersection,sortAndCheck_eq isFirst,sortAndCheck_eq isSecond]
    exact isResult
  · intro i
    simp [covers,walked.covers]

theorem complement_spec (ordered : Ordered set) (bounded : ∀ interval ∈ set,interval.2 ≤ upperBound) :
    ∃ result,complement set = some result ∧ Separated result ∧ ∀ i,Covers result i ↔ i < upperBound ∧ ¬ Covers set i := by
  obtain ⟨result,isResult,isSeparated,_,covers⟩ := complementFrom_walked ordered (by simp) bounded (Nat.zero_le _)
  refine ⟨result,?_,isSeparated,?_⟩
  · rw [complement,sortAndCheck_eq ordered]
    exact isResult
  · intro i
    simp [covers]

end Operations
end Qlever.SetOfIntervals
