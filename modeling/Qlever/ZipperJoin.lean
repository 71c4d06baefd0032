import Mathlib

/-! The merge join `zipperJoinWithUndef` of `JoinAlgorithms.h`. Rows are compared
by their own linear order, which is the `lessThan` the ranges are sorted by. The
target of the two actions is an arbitrary state, so that one definition serves
the plain join and the join of blocks. `checkCancellation` is left out.
-/
namespace Qlever.ZipperJoin

variable {ρ σ : Type}

structure Iter (ρ : Type) where
  row : ρ
  pos : Nat
  deriving DecidableEq, Repr

/-- The iterators of a subrange that starts `start` elements behind the begin of its container. -/
def iters (start : Nat) (rows : List ρ) : List (Iter ρ) :=
  (rows.zipIdx start).map (fun pair => ⟨pair.1,pair.2⟩)

/-- The variables that the lambdas of `zipperJoinWithUndef` capture by reference. -/
structure State (σ : Type) where
  target : σ
  coveredFromLeft : List Bool
  outOfOrderFound : Bool
  compatibleWasFound : Bool

/-- A generator of iterators in the form in which the range-based for loop consumes
it: the loop body is run for each iterator that is yielded, and the generator may
change the state between two yields. The first argument is the row, the second
one the range `[begin, end)`. -/
abbrev Finder (ρ σ : Type) := ρ → List (Iter ρ) → (Iter ρ → State σ → State σ) → State σ → State σ

/-- The callbacks of the join. `none` stands for `ad_utility::noop`. -/
structure Callbacks (ρ σ : Type) where
  compatibleRowAction : Iter ρ → Iter ρ → σ → σ
  findSmallerUndefRangesLeft : Option (Finder ρ σ)
  findSmallerUndefRangesRight : Option (Finder ρ σ)
  elFromFirstNotFoundAction : Option (Iter ρ → σ → σ)
  /-- True iff one of the columns of the row is UNDEF. -/
  rowHasUndef : ρ → Bool
  coverUndefRanges : Bool
  /-- The position of `std::begin(left)`. -/
  begLeft : Nat

section Model
variable [LinearOrder ρ] (cb : Callbacks ρ σ)

def Callbacks.hasNotFoundAction : Bool := cb.elFromFirstNotFoundAction.isSome

def cover (it : Iter ρ) (s : State σ) : State σ :=
  if cb.hasNotFoundAction then
    {s with coveredFromLeft := s.coveredFromLeft.set (it.pos - cb.begLeft) true}
  else s

def act (left right : Iter ρ) (s : State σ) : State σ :=
  {s with target := cb.compatibleRowAction left right s.target}

def notFound (it : Iter ρ) (s : State σ) : State σ :=
  match cb.elFromFirstNotFoundAction with
  | none => s
  | some action => {s with target := action it s.target}

def mergeWithUndefLeft (itFromRight : Iter ρ) (range : List (Iter ρ)) (s : State σ) : State σ :=
  match cb.findSmallerUndefRangesLeft with
  | none => s
  | some find =>
    find itFromRight.row range (fun it s =>
      if it.row < itFromRight.row then
        let s := act cb it itFromRight s
        if cb.coverUndefRanges then cover cb it s else s
      else s) s

def containsNoUndefined (row : ρ) : Bool :=
  if cb.findSmallerUndefRangesLeft.isNone && cb.findSmallerUndefRangesRight.isNone then true
  else !cb.rowHasUndef row

def mergeWithUndefRight (itFromLeft : Iter ρ) (range : List (Iter ρ)) (hasNoMatch : Bool)
    (s : State σ) : State σ :=
  match cb.findSmallerUndefRangesRight with
  | some find =>
    let s := find itFromLeft.row range (fun it s =>
      if it.row < itFromLeft.row then act cb itFromLeft it {s with compatibleWasFound := true}
      else s) {s with compatibleWasFound := false}
    if s.compatibleWasFound then cover cb itFromLeft s
    else if hasNoMatch && containsNoUndefined cb itFromLeft.row then
      cover cb itFromLeft (notFound cb itFromLeft s)
    else s
  | none =>
    if hasNoMatch && containsNoUndefined cb itFromLeft.row then
      cover cb itFromLeft (notFound cb itFromLeft s)
    else s

/-- The first inner loop of the zipper. The result is the part of `left` that was
passed, the part that is left, and the state. -/
def skipLeft (rangeRight : List (Iter ρ)) (it2 : Iter ρ) :
    List (Iter ρ) → List (Iter ρ) → State σ → List (Iter ρ) × List (Iter ρ) × State σ
  | passed,[],s => (passed,[],s)
  | passed,it1::rest,s =>
    if it1.row < it2.row then
      skipLeft rangeRight it2 (passed ++ [it1]) rest (mergeWithUndefRight cb it1 rangeRight true s)
    else (passed,it1::rest,s)

def skipRight (rangeLeft : List (Iter ρ)) (it1 : Iter ρ) :
    List (Iter ρ) → List (Iter ρ) → State σ → List (Iter ρ) × List (Iter ρ) × State σ
  | passed,[],s => (passed,[],s)
  | passed,it2::rest,s =>
    if it2.row < it1.row then
      skipRight rangeLeft it1 (passed ++ [it2]) rest (mergeWithUndefLeft cb it2 rangeLeft s)
    else (passed,it2::rest,s)

def addSame (same1 same2 : List (Iter ρ)) (s : State σ) : State σ :=
  same1.foldl (fun s it1 => same2.foldl (fun s it2 => act cb it1 it2 s) (cover cb it1 s)) s

structure Position (ρ σ : Type) where
  passed1 : List (Iter ρ)
  rest1 : List (Iter ρ)
  passed2 : List (Iter ρ)
  rest2 : List (Iter ρ)
  state : State σ

/-- One iteration of the outer loop for nonempty `rest1` and `rest2`. Where the source
returns from inside of an inner loop, one of the ranges is exhausted. -/
def zipStep (p : Position ρ σ) (it2 : Iter ρ) : Position ρ σ :=
  match skipLeft cb p.passed2 it2 p.passed1 p.rest1 p.state with
  | (passed1,[],s) => {p with passed1,rest1 := [],state := s}
  | (passed1,it1::rest1,s) =>
    match skipRight cb passed1 it1 p.passed2 p.rest2 s with
    | (passed2,[],s) => {passed1,rest1 := it1::rest1,passed2,rest2 := [],state := s}
    | (passed2,it2::rest2,s) =>
      let same1 := (it1::rest1).takeWhile (fun it => it.row = it2.row)
      let same2 := (it2::rest2).takeWhile (fun it => it1.row = it.row)
      let s := same1.foldl (fun s it => mergeWithUndefRight cb it passed2 false s) s
      let s := same2.foldl (fun s it => mergeWithUndefLeft cb it passed1 s) s
      {passed1 := passed1 ++ same1,rest1 := (it1::rest1).dropWhile (fun it => it.row = it2.row),
       passed2 := passed2 ++ same2,rest2 := (it2::rest2).dropWhile (fun it => it1.row = it.row),
       state := addSame cb same1 same2 s}

def zipLoop : Nat → Position ρ σ → Position ρ σ
  | 0,p => p
  | fuel + 1,p =>
    match p.rest1,p.rest2 with
    | _::_,it2::_ => zipLoop fuel (zipStep cb p it2)
    | _,_ => p

/-- The rows of `left` that are still uncovered at the end. -/
def uncovered (left : List (Iter ρ)) (s : State σ) : List (Iter ρ) :=
  (left.zip s.coveredFromLeft).filterMap (fun pair => if pair.2 then none else some pair.1)

def maxSizeT : Nat := 2^64 - 1

def mergeAll (left right : List (Iter ρ)) (s : State σ) : State σ :=
  let p := zipLoop cb (left.length + right.length + 1) ⟨[],left,[],right,s⟩
  let s := p.rest2.foldl (fun s it => mergeWithUndefLeft cb it left s) p.state
  p.rest1.foldl (fun s it => mergeWithUndefRight cb it right true s) s

def initialState (left : List (Iter ρ)) (target : σ) : State σ :=
  ⟨target,if cb.hasNotFoundAction then List.replicate left.length false else [],false,false⟩

/-- The join itself: the final target and the returned `numOutOfOrder`. -/
def zipperJoinWithUndef (left right : List (Iter ρ)) (target : σ) : σ × Nat :=
  let s := mergeAll cb left right (initialState cb left target)
  let atEnd := if cb.hasNotFoundAction then uncovered left s else []
  ((atEnd.foldl (fun s it => notFound cb it s) s).target,
    if s.outOfOrderFound then maxSizeT else atEnd.length)

end Model
end Qlever.ZipperJoin
