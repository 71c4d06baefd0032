import Qlever.Library.SortedPrefix

/-! Binary searches by halving. The test reads one position and may fail; it says whether the search goes on to
the right of this position.
-/
namespace Qlever.Library

/-- Search among the `len` positions that start at `first`. -/
def bisect (goRight : Nat → Option Bool) (first len : Nat) : Option Nat :=
  if len = 0 then some first
  else
    match goRight (first + len / 2) with
    | none => none
    | some true => bisect goRight (first + len / 2 + 1) (len - len / 2 - 1)
    | some false => bisect goRight first (len / 2)
termination_by len

structure Cuts (test : Nat → Bool) (first last point : Nat) : Prop where
  lower : first ≤ point
  upper : point ≤ last
  before : ∀ i,first ≤ i → i < point → test i = true
  after : ∀ i,point ≤ i → i < last → test i = false

section
variable (test : Nat → Bool) {goRight : Nat → Option Bool} {first len : Nat}

theorem bisect_eq {point : Nat}
    (reads : ∀ i,first ≤ i → i < first + len → goRight i = some (test i)) (cuts : Cuts test first (first + len) point) :
    bisect goRight first len = some point := by
  -- Each step keeps the cut between the two ends of the remaining range.
  induction len using Nat.strongRecOn generalizing first with
  | ind len ih =>
    have lower := cuts.lower
    have upper := cuts.upper
    rw [bisect]
    split
    next empty =>
      have same : first = point := by omega
      rw [same]
    next nonempty =>
      rw [reads (first + len / 2) (by omega) (by omega)]
      cases isTest : test (first + len / 2) with
      | true =>
        have right : first + len / 2 < point := by
          by_contra notRight
          have left := cuts.after (first + len / 2) (by omega) (by omega)
          rw [isTest] at left
          cases left
        have last : first + len / 2 + 1 + (len - len / 2 - 1) = first + len := by omega
        apply ih (len - len / 2 - 1) (by omega)
        · intro i above below
          exact reads i (by omega) (by omega)
        · rw [last]
          exact ⟨by omega,upper,fun i above below => cuts.before i (by omega) below,cuts.after⟩
      | false =>
        have left : point ≤ first + len / 2 := by
          by_contra notLeft
          have right := cuts.before (first + len / 2) (by omega) (by omega)
          rw [isTest] at right
          cases right
        apply ih (len / 2) (by omega)
        · intro i above below
          exact reads i above (by omega)
        · exact ⟨lower,left,cuts.before,fun i above below => cuts.after i above (by omega)⟩

theorem bisect_ends (reads : ∀ i,first ≤ i → i < first + len → goRight i = some (test i)) : ∃ point,bisect goRight first len = some point ∧ first ≤ point ∧
      point ≤ first + len ∧ (point < first + len → test point = false) ∧ (first < point → test (point - 1) = true) := by
  induction len using Nat.strongRecOn generalizing first with
  | ind len ih =>
    rw [bisect]
    split
    next empty => exact ⟨first,rfl,by omega,by omega,fun inside => by omega,fun less => by omega⟩
    next nonempty =>
      rw [reads (first + len / 2) (by omega) (by omega)]
      cases isTest : test (first + len / 2) with
      | true =>
        have last : first + len / 2 + 1 + (len - len / 2 - 1) = first + len := by omega
        obtain ⟨point,found,lower,upper,fails,holds⟩ := ih (len - len / 2 - 1) (by omega)
          (fun i (above : first + len / 2 + 1 ≤ i) below => reads i (by omega) (by omega))
        refine ⟨point,found,by omega,by omega,fun inside => fails (by omega),fun _ => ?_⟩
        rcases Nat.lt_or_eq_of_le lower with less | same
        · exact holds less
        · rw [← same,Nat.add_sub_cancel]
          exact isTest
      | false =>
        obtain ⟨point,found,lower,upper,fails,holds⟩ := ih (len / 2) (by omega) (fun i above below => reads i above (by omega))
        refine ⟨point,found,lower,by omega,fun _ => ?_,holds⟩
        rcases Nat.lt_or_eq_of_le upper with less | same
        · exact fails less
        · rw [same]
          exact isTest

/-- The first position that the halving of `len` positions reads behind the first ones, or `len` if there is none. -/
def firstProbe (skipped len : Nat) : Nat :=
  if 0 < len ∧ len / 2 < skipped then len / 2 + 1 + firstProbe (skipped - (len / 2 + 1)) (len - len / 2 - 1) else len / 2
termination_by len

theorem bisect_twoCuts {point stop : Nat} (upper : stop ≤ first + len)
    (reads : ∀ i,first ≤ i → i < first + len → goRight i = some (test i)) (before : ∀ i,first ≤ i → i < point → test i = true)
    (between : ∀ i,point ≤ i → i < stop → test i = false) (after : ∀ i,stop ≤ i → i < first + len → test i = true) (lower : first ≤ point)
    (middle : point ≤ stop) : bisect goRight first len = some (if first + firstProbe (point - first) len < stop then point else first + len) := by
  induction len using Nat.strongRecOn generalizing first with
  | ind len ih =>
    rw [bisect]
    rcases Nat.eq_zero_or_pos len with empty | nonempty
    · have same : point = first + len := by omega
      rw [if_pos empty,same,ite_self,empty,Nat.add_zero]
    rw [if_neg (by omega),reads (first + len / 2) (by omega) (by omega)]
    have shift : first + len / 2 + 1 + (len - len / 2 - 1) = first + len := by omega
    rcases Nat.lt_or_ge (len / 2) (point - first) with left | right
    · have probe : firstProbe (point - first) len = len / 2 + 1 + firstProbe (point - (first + (len / 2 + 1))) (len - len / 2 - 1) := by
        rw [firstProbe,if_pos ⟨nonempty,left⟩,Nat.sub_sub]
      have rest := @ih (len - len / 2 - 1) (by omega) (first + len / 2 + 1) (by omega) (fun i above below => reads i (by omega) (by omega))
        (fun i above below => before i (by omega) below) (fun i above below => after i above (by omega)) (by omega)
      rw [shift,Nat.add_assoc first,Nat.add_assoc first,← probe] at rest
      rw [before (first + len / 2) (by omega) (by omega),← rest]
      rfl
    · have probe : firstProbe (point - first) len = len / 2 := by
        rw [firstProbe,if_neg (by omega)]
      rw [probe]
      rcases Nat.lt_or_ge (first + len / 2) stop with inside | outside
      · rw [between (first + len / 2) (by omega) inside,if_pos inside]
        exact bisect_eq test (fun i above below => reads i above (by omega)) ⟨lower,by omega,before,fun i above below => between i above (by omega)⟩
      · rw [after (first + len / 2) outside (by omega),if_neg (by omega)]
        exact bisect_eq test (fun i above below => reads i (by omega) (by omega))
          ⟨by omega,by omega,fun i above below => after i (by omega) (by omega),fun i above below => by omega⟩

end

theorem bisect_gap {goRight : Nat → Option Bool} {first len point stop : Nat} (lower : first ≤ point) (gap : point < stop)
    (upper : stop ≤ first + len) (before : ∀ i,first ≤ i → i < point → goRight i = some true) (between : ∀ i,point ≤ i → i < stop → goRight i = none)
    (after : ∀ i,stop ≤ i → i < first + len → goRight i = some false) : bisect goRight first len = none := by
  induction len using Nat.strongRecOn generalizing first with
  | ind len ih =>
    rw [bisect,if_neg (by omega)]
    rcases Nat.lt_or_ge (first + len / 2) point with left | right
    · rw [before (first + len / 2) (by omega) left]
      exact ih (len - len / 2 - 1) (by omega) (by omega) (by omega) (fun i above below => before i (by omega) below)
        (fun i above below => after i above (by omega))
    · rcases Nat.lt_or_ge (first + len / 2) stop with inside | outside
      · rw [between (first + len / 2) right inside]
      · rw [after (first + len / 2) outside (by omega)]
        exact ih (len / 2) (by omega) lower outside before (fun i above below => after i above (by omega))

theorem Cuts.congr {test other : Nat → Bool} {first last point : Nat} (cuts : Cuts test first last point)
    (same : ∀ i,first ≤ i → i < last → test i = other i) : Cuts other first last point where
  lower := cuts.lower
  upper := cuts.upper
  before := by
    intro i above below
    rw [← same i above (Nat.lt_of_lt_of_le below cuts.upper)]
    exact cuts.before i above below
  after := by
    intro i above below
    rw [← same i (Nat.le_trans cuts.lower above) below]
    exact cuts.after i above below

theorem exists_cuts {test : Nat → Bool} {first last : Nat} (le : first ≤ last)
    (closed : ∀ i j,first ≤ i → i ≤ j → j < last → test j = true → test i = true) : ∃ point,Cuts test first last point := by
  obtain ⟨len,rfl⟩ := Nat.exists_eq_add_of_le le
  induction len with
  | zero => exact ⟨first,Nat.le_refl _,Nat.le_refl _,fun i above below => by omega,fun i above below => by omega⟩
  | succ len ih =>
    obtain ⟨point,cuts⟩ := ih (Nat.le_add_right _ _) (fun i j above before below => closed i j above before (by omega))
    have lower := cuts.lower
    have upper := cuts.upper
    cases isTest : test (first + len) with
    | true =>
      refine ⟨first + (len + 1),by omega,Nat.le_refl _,?_,fun i above below => by omega⟩
      intro i above below
      exact closed i (first + len) above (by omega) (by omega) isTest
    | false =>
      refine ⟨point,lower,by omega,cuts.before,?_⟩
      intro i above below
      rcases Nat.lt_or_eq_of_le (Nat.le_of_lt_succ below) with inside | rfl
      · exact cuts.after i above inside
      · exact isTest

section Cut
variable {α : Type} {test : α → Bool} {xs : List α}

def Closed (test : α → Bool) (xs : List α) : Prop := xs.Pairwise (fun x y => test y = true → test x = true)

def partitionPoint (test : α → Bool) (xs : List α) : Nat := xs.findIdx (fun x => !test x)

theorem partitionPoint_le : partitionPoint test xs ≤ xs.length := List.findIdx_le_length

variable {i : Nat} {x : α}

theorem before_partitionPoint (below : i < partitionPoint test xs) (isElement : xs[i]? = some x) : test x = true := by
  obtain ⟨inside,rfl⟩ := List.getElem?_eq_some_iff.mp isElement
  have holds := List.not_of_lt_findIdx below
  simpa using holds

theorem after_partitionPoint (closed : Closed test xs) (above : partitionPoint test xs ≤ i) (isElement : xs[i]? = some x) :
    test x = false := by
  obtain ⟨inside,rfl⟩ := List.getElem?_eq_some_iff.mp isElement
  have exists_ : partitionPoint test xs < xs.length := by omega
  have fails : test xs[partitionPoint test xs] = false := by
    have found : (!test xs[partitionPoint test xs]) = true := List.findIdx_getElem (w := exists_)
    simpa using found
  rcases Nat.lt_or_eq_of_le above with later | same
  · have keeps := List.pairwise_iff_getElem.mp closed _ _ exists_ inside later
    by_contra holds
    rw [keeps (by simpa using holds)] at fails
    cases fails
  · simpa [same] using fails

theorem cuts_partitionPoint (closed : Closed test xs) : Cuts (fun i => (xs[i]?.map test).getD false) 0 xs.length (partitionPoint test xs) where
  lower := Nat.zero_le _
  upper := partitionPoint_le
  before := by
    intro i _ below
    have isElement := List.getElem?_eq_getElem (Nat.lt_of_lt_of_le below partitionPoint_le)
    rw [isElement,Option.map_some,Option.getD_some]
    exact before_partitionPoint below isElement
  after := by
    intro i above inside
    have isElement := List.getElem?_eq_getElem inside
    rw [isElement,Option.map_some,Option.getD_some]
    exact after_partitionPoint closed above isElement

/-- `std::ranges::equal_range`: the first position that is not `less`, and from there on the first one that is `greater`. -/
def equalRange (less greater : α → Bool) (xs : List α) : Option (Nat × Nat) := do
  let left ← bisect (fun i => xs[i]?.map less) 0 xs.length
  let right ← bisect (fun i => xs[i]?.map (fun x => !greater x)) left (xs.length - left)
  return (left,right)

theorem bisect_partitionPoint (closed : Closed test xs) : bisect (fun i => xs[i]?.map test) 0 xs.length = some (partitionPoint test xs) := by
  apply bisect_eq (fun i => (xs[i]?.map test).getD false)
  · intro i _ inside
    rw [List.getElem?_eq_getElem (by omega),Option.map_some,Option.getD_some]
  · rw [Nat.zero_add]
    exact cuts_partitionPoint closed

/-- The order of the results of a test: it goes right at first, and then possibly it fails before it does not go right any more. -/
def searchRank : Option Bool → Nat
  | some true => 0
  | none => 1
  | some false => 2

theorem searchRank_le_iff (first second : Option Bool) :
    searchRank first ≤ searchRank second ↔ (second = some true → first = some true) ∧ (second = none → first ≠ some false) := by
  match first,second with
  | some true,_ => simp [searchRank]
  | none,none | none,some true | none,some false => simp [searchRank]
  | some false,none | some false,some true | some false,some false => simp [searchRank]

section
variable {goRight : α → Option Bool} (sorted : xs.Pairwise (fun x y => searchRank (goRight x) ≤ searchRank (goRight y)))
include sorted

theorem closed_of_ranked :
    Closed (fun x => decide (goRight x = some true)) xs := by
  apply sorted.imp
  intro x y le isTrue
  simp only [decide_eq_true_eq] at isTrue ⊢
  exact ((searchRank_le_iff _ _).mp le).1 isTrue

theorem bisect_ranked :
    bisect (fun i => xs[i]? >>= goRight) 0 xs.length =
      if ∃ x ∈ xs,goRight x = none then none else some (partitionPoint (fun x => goRight x = some true) xs) := by
  have closed := closed_of_ranked sorted
  have closed' : Closed (fun x => decide (goRight x ≠ some false)) xs := by
    apply sorted.imp
    intro x y le notFalse
    simp only [decide_eq_true_eq] at notFalse ⊢
    intro isFalse
    rw [isFalse] at le
    match goRight y,le,notFalse with
    | some false,_,notFalse => exact notFalse rfl
  split
  next fails =>
    obtain ⟨x,member,isNone⟩ := fails
    obtain ⟨i,inside,isElement⟩ := List.getElem_of_mem member
    have read := List.getElem?_eq_some_iff.mpr ⟨inside,isElement⟩
    have above : partitionPoint (fun x => decide (goRight x = some true)) xs ≤ i := by
      by_contra below
      have holds := before_partitionPoint (Nat.lt_of_not_le below) read
      simp [isNone] at holds
    have below : i < partitionPoint (fun x => decide (goRight x ≠ some false)) xs := by
      by_contra notBelow
      have fails := after_partitionPoint closed' (Nat.le_of_not_lt notBelow) read
      simp [isNone] at fails
    apply bisect_gap (Nat.zero_le _) (Nat.lt_of_le_of_lt above below)
    · rw [Nat.zero_add]
      exact partitionPoint_le
    · intro i _ before
      have read := List.getElem?_eq_getElem (Nat.lt_of_lt_of_le before partitionPoint_le)
      have holds := before_partitionPoint before read
      simpa [read] using holds
    · intro i from_ before
      have inside := Nat.lt_of_lt_of_le before partitionPoint_le
      have read := List.getElem?_eq_getElem inside
      have notTrue := after_partitionPoint closed from_ read
      have notFalse := before_partitionPoint before read
      simp only [decide_eq_false_iff_not,decide_eq_true_eq] at notTrue notFalse
      rw [read,Option.bind_eq_bind,Option.bind_some]
      match goRight xs[i],notTrue,notFalse with
      | none,_,_ => rfl
      | some true,notTrue,_ => exact absurd rfl notTrue
      | some false,_,notFalse => exact absurd rfl notFalse
    · intro i from_ inside
      have read := List.getElem?_eq_getElem (show i < xs.length by omega)
      have isFalse := after_partitionPoint closed' from_ read
      simpa [read] using isFalse
  next total =>
    rw [← bisect_partitionPoint closed]
    congr 1
    funext i
    cases read : xs[i]? with
    | none => rfl
    | some x =>
      have defined : goRight x ≠ none := fun isNone => total ⟨x,List.mem_of_getElem? read,isNone⟩
      match isGoRight : goRight x,defined with
      | some true,_ => simp [isGoRight]
      | some false,_ => simp [isGoRight]

end

theorem slice_partitionPoint {first second : α → Bool} (closedFirst : Closed first xs) (closedSecond : Closed second xs)
    (imp : ∀ x ∈ xs,first x = true → second x = true) :
    (xs.drop (partitionPoint first xs)).take (partitionPoint second xs - partitionPoint first xs) =
      xs.filter (fun x => second x && !first x) := by
  have takeSecond : xs.take (partitionPoint second xs) = xs.filter second := by
    rw [← takeWhile_eq_filter second xs closedSecond,List.takeWhile_eq_take_findIdx_not]
    rfl
  have closed : (xs.filter second).Pairwise (fun x y => first y = true → first x = true) := closedFirst.sublist List.filter_sublist
  have prefixLength : partitionPoint first xs = partitionPoint first (xs.filter second) := by
    have count : ∀ ys : List α,Closed first ys → partitionPoint first ys = (ys.filter first).length := by
      intro ys closed
      rw [← takeWhile_eq_filter first ys closed,List.takeWhile_eq_take_findIdx_not,List.length_take]
      exact (Nat.min_eq_left partitionPoint_le).symm
    rw [count xs closedFirst,count _ closed,List.filter_filter]
    congr 1
    apply List.filter_congr
    intro x member
    cases holds : first x with
    | false => rfl
    | true => rw [imp x member holds,Bool.true_and]
  rw [← List.drop_take,takeSecond,prefixLength]
  have dropped := dropWhile_eq_filter first (xs.filter second) closed
  rw [List.dropWhile_eq_drop_findIdx_not] at dropped
  rw [partitionPoint,dropped,List.filter_filter]
  apply List.filter_congr
  intro x _
  rw [Bool.and_comm]

def rangeIsEmpty : Option (Nat × Nat) → Bool
  | some (left,right) => left == right
  | none => true

variable {less greater : α → Bool}

theorem reads_element (test : α → Bool) (xs : List α) (inside : i < xs.length) :
    xs[i]?.map test = some ((xs[i]?.map test).getD false) := by
  rw [List.getElem?_eq_getElem inside,Option.map_some,Option.getD_some]

theorem equalRange_ends (nonempty : rangeIsEmpty (equalRange less greater xs) = false) :
    ∃ (i j : Nat) (x y : α),i ≤ j ∧ xs[i]? = some x ∧ xs[j]? = some y ∧ less x = false ∧ greater y = false := by
  obtain ⟨left,isLeft,_,_,atLeft,_⟩ := bisect_ends (fun i => (xs[i]?.map less).getD false)
    (fun i (_ : 0 ≤ i) (inside : i < 0 + xs.length) => reads_element less xs (by omega))
  obtain ⟨right,isRight,lower,upper,_,beforeRight⟩ := bisect_ends (fun i => (xs[i]?.map (fun x => !greater x)).getD false)
    (fun i (_ : left ≤ i) (inside : i < left + (xs.length - left)) => reads_element (fun x => !greater x) xs (by omega))
  have isRange : equalRange less greater xs = some (left,right) := by
    rw [equalRange,isLeft]
    change (bisect _ left (xs.length - left) >>= fun right => some (left,right)) = _
    rw [isRight]
    rfl
  rw [isRange] at nonempty
  have different : left ≠ right := by simpa [rangeIsEmpty] using nonempty
  have insideLeft : left < xs.length := by omega
  have insideRight : right - 1 < xs.length := by omega
  refine ⟨left,right - 1,xs[left],xs[right - 1],by omega,List.getElem?_eq_getElem insideLeft,List.getElem?_eq_getElem insideRight,?_,?_⟩
  · simpa [List.getElem?_eq_getElem insideLeft] using atLeft (by omega)
  · simpa [List.getElem?_eq_getElem insideRight] using beforeRight (by omega)

theorem equalRange_eq (closedLess : Closed less xs) (closedGreater : Closed (fun x => !greater x) xs)
    (le : partitionPoint less xs ≤ partitionPoint (fun x => !greater x) xs) :
    equalRange less greater xs = some (partitionPoint less xs,partitionPoint (fun x => !greater x) xs) := by
  have cutsGreater := cuts_partitionPoint closedGreater
  have upper : partitionPoint (fun x => !greater x) xs ≤ xs.length := partitionPoint_le
  have isRight : bisect (fun i => xs[i]?.map (fun x => !greater x)) (partitionPoint less xs) (xs.length - partitionPoint less xs) =
      some (partitionPoint (fun x => !greater x) xs) := by
    apply bisect_eq (fun i => (xs[i]?.map (fun x => !greater x)).getD false)
    · exact fun i _ inside => reads_element (fun x => !greater x) xs (by omega)
    · exact ⟨by omega,by omega,fun j _ => cutsGreater.before j (Nat.zero_le j),fun j from_ inside => cutsGreater.after j from_ (by omega)⟩
  rw [equalRange,bisect_partitionPoint closedLess]
  change (bisect _ (partitionPoint less xs) _ >>= fun right => some (partitionPoint less xs,right)) = _
  rw [isRight]
  rfl

theorem partitionPoint_mono {first second : α → Bool} (imp : ∀ x ∈ xs,first x = true → second x = true) :
    partitionPoint first xs ≤ partitionPoint second xs := by
  by_contra less
  have inside : partitionPoint second xs < xs.length := Nat.lt_of_lt_of_le (Nat.lt_of_not_le less) partitionPoint_le
  have holds := before_partitionPoint (Nat.lt_of_not_le less) (List.getElem?_eq_getElem inside)
  have fails : (!second xs[partitionPoint second xs]) = true := List.findIdx_getElem (w := inside)
  rw [imp _ (List.getElem_mem inside) holds] at fails
  cases fails

theorem equalRange_complete (closedLess : Closed less xs) (closedGreater : Closed (fun x => !greater x) xs) (member : x ∈ xs)
    (notLess : less x = false) (notGreater : greater x = false) : rangeIsEmpty (equalRange less greater xs) = false := by
  have cutsLess := cuts_partitionPoint closedLess
  have cutsGreater := cuts_partitionPoint closedGreater
  obtain ⟨i,isElement⟩ := List.getElem?_of_mem member
  have above : partitionPoint less xs ≤ i := by
    by_contra below
    rw [before_partitionPoint (Nat.lt_of_not_le below) isElement] at notLess
    cases notLess
  have below : i < partitionPoint (fun x => !greater x) xs := by
    by_contra notBelow
    have fails := after_partitionPoint closedGreater (Nat.le_of_not_lt notBelow) isElement
    rw [notGreater] at fails
    cases fails
  rw [equalRange_eq closedLess closedGreater (by omega)]
  simp only [rangeIsEmpty,beq_eq_false_iff_ne]
  omega

end Cut
end Qlever.Library
