import Qlever.FindUndefRanges
import Qlever.Library.NestedLoop

/-! `zipperJoinWithUndef` on rows of join columns computes the SPARQL join. The
callbacks that find smaller UNDEF rows are arbitrary functions that meet the
contract documented in `FindUndefRanges.h`.
-/
namespace Qlever.UndefJoin
open ZipperJoin FindUndefRanges Library List

inductive Call
  | compatibleRowAction (left right : Nat)
  | elFromFirstNotFoundAction (left : Nat)
  deriving DecidableEq, Repr

section Effects
variable {ρ : Type}

def finder {σ : Type} (find : FindUndef ρ) : Finder ρ σ :=
  fun row range body s =>
    let found := find row range
    found.1.foldl (fun s it => body it s) {s with outOfOrderFound := s.outOfOrderFound || found.2}

variable [LinearOrder ρ] (rowHasUndef : ρ → Bool) (findLeft findRight : Option (FindUndef ρ)) (optional : Bool)

def callbacks : Callbacks ρ (List Call) where
  compatibleRowAction left right calls := calls ++ [.compatibleRowAction left.pos right.pos]
  findSmallerUndefRangesLeft := findLeft.map finder
  findSmallerUndefRangesRight := findRight.map finder
  elFromFirstNotFoundAction :=
    if optional then some (fun it calls => calls ++ [.elFromFirstNotFoundAction it.pos]) else none
  rowHasUndef
  coverUndefRanges := true
  begLeft := 0

/-- The calls that `zipperJoinWithUndef` makes. The join is an OPTIONAL join or a MINUS
iff `optional` is set. -/
def join (left right : List ρ) : List Call :=
  (zipperJoinWithUndef (callbacks rowHasUndef findLeft findRight optional) (iters 0 left) (iters 0 right) []).1

/-- The smaller rows that a callback yields and that pass the `lessThan` test. -/
def smaller (find : Option (FindUndef ρ)) (it : Iter ρ) (range : List (Iter ρ)) :
    List (Iter ρ) :=
  match find with
  | none => []
  | some find => (find it.row range).1.filter (fun other => other.row < it.row)

def callsOf : Visit ρ → List Call
  | .right it range hasNoMatch =>
    (smaller findRight it range).map (fun other => .compatibleRowAction it.pos other.pos) ++
      if (smaller findRight it range).isEmpty && hasNoMatch &&
          containsNoUndefined (callbacks rowHasUndef findLeft findRight optional) it.row && optional
      then [.elFromFirstNotFoundAction it.pos] else []
  | .left it range => (smaller findLeft it range).map (fun other => .compatibleRowAction other.pos it.pos)
  | .same it others => others.map (fun other => .compatibleRowAction it.pos other.pos)

/-- The positions of `left` that a single visit covers. -/
def coversOf : Visit ρ → List Nat
  | .right it range hasNoMatch =>
    if !(smaller findRight it range).isEmpty ||
        (hasNoMatch && containsNoUndefined (callbacks rowHasUndef findLeft findRight optional) it.row)
    then [it.pos] else []
  | .left it range => (smaller findLeft it range).map Iter.pos
  | .same it _ => [it.pos]

def equalRow (other it : Iter ρ) : Bool := other.row = it.row

section
omit [LinearOrder ρ]

theorem act_eq (left right : Iter ρ) (s : State (List Call)) :
    act (callbacks rowHasUndef findLeft findRight optional) left right s =
      {s with target := s.target ++ [.compatibleRowAction left.pos right.pos]} := rfl

theorem cover_eq (it : Iter ρ) (s : State (List Call)) :
    cover (callbacks rowHasUndef findLeft findRight optional) it s =
      {s with coveredFromLeft := if optional then setAll s.coveredFromLeft [it.pos] else s.coveredFromLeft} := by
  cases optional <;> rfl

theorem notFound_eq (it : Iter ρ) (s : State (List Call)) :
    notFound (callbacks rowHasUndef findLeft findRight optional) it s =
      {s with target := s.target ++ if optional then [.elFromFirstNotFoundAction it.pos] else []} := by
  cases optional <;> simp [notFound,callbacks]

end

section
variable (it : Iter ρ) (found : List (Iter ρ)) (s : State (List Call))

private theorem foldl_right :
    found.foldl (fun s other => if other.row < it.row then
        act (callbacks rowHasUndef findLeft findRight optional) it other {s with compatibleWasFound := true} else s) s =
      {s with
        target := s.target ++ (found.filter (fun other => other.row < it.row)).map
          (fun other => .compatibleRowAction it.pos other.pos)
        compatibleWasFound := s.compatibleWasFound || !(found.filter (fun other => other.row < it.row)).isEmpty} := by
  induction found generalizing s with
  | nil => simp
  | cons other found ih =>
    rw [foldl_cons,ih]
    by_cases less : other.row < it.row
    · simp [less,act_eq]
    · simp [less]

private theorem foldl_left :
    found.foldl (fun s other => if other.row < it.row then
        cover (callbacks rowHasUndef findLeft findRight optional) other
          (act (callbacks rowHasUndef findLeft findRight optional) other it s) else s) s =
      {s with
        target := s.target ++ (found.filter (fun other => other.row < it.row)).map
          (fun other => .compatibleRowAction other.pos it.pos)
        coveredFromLeft := if optional then setAll s.coveredFromLeft
          ((found.filter (fun other => other.row < it.row)).map Iter.pos) else s.coveredFromLeft} := by
  induction found generalizing s with
  | nil => simp [setAll]
  | cons other found ih =>
    rw [foldl_cons,ih]
    by_cases less : other.row < it.row
    · cases optional <;> simp [less,act_eq,cover_eq,setAll]
    · simp [less]

end

omit [LinearOrder ρ] in
private theorem foldl_same (it : Iter ρ) (others : List (Iter ρ)) (s : State (List Call)) :
    others.foldl (fun s other => act (callbacks rowHasUndef findLeft findRight optional) it other s) s =
      {s with target := s.target ++ others.map (fun other => .compatibleRowAction it.pos other.pos)} := by
  induction others generalizing s with
  | nil => simp
  | cons other others ih =>
    rw [foldl_cons,ih]
    simp [act_eq]

private theorem mergeWithUndefRight_effect (it : Iter ρ) (range : List (Iter ρ))
    (hasNoMatch : Bool) (s : State (List Call)) :
    (mergeWithUndefRight (callbacks rowHasUndef findLeft findRight optional) it range hasNoMatch s).target =
      s.target ++ callsOf rowHasUndef findLeft findRight optional (.right it range hasNoMatch) ∧
    (mergeWithUndefRight (callbacks rowHasUndef findLeft findRight optional) it range hasNoMatch s).coveredFromLeft =
      if optional then setAll s.coveredFromLeft
        (coversOf rowHasUndef findLeft findRight optional (.right it range hasNoMatch)) else s.coveredFromLeft := by
  generalize same : containsNoUndefined (callbacks rowHasUndef findLeft findRight optional) it.row = free
  cases findRight with
  | none =>
    have unfolded : mergeWithUndefRight (callbacks rowHasUndef findLeft none optional) it range hasNoMatch s =
        if hasNoMatch && containsNoUndefined (callbacks rowHasUndef findLeft none optional) it.row then
          cover (callbacks rowHasUndef findLeft none optional) it (notFound (callbacks rowHasUndef findLeft none optional) it s)
        else s := rfl
    rw [unfolded,cover_eq,notFound_eq]
    simp only [callsOf,coversOf,smaller,same]
    cases hasNoMatch <;> cases free <;> cases optional <;> simp [setAll]
  | some find =>
    have unfolded : mergeWithUndefRight (callbacks rowHasUndef findLeft (some find) optional) it range hasNoMatch s =
        let t := (find it.row range).1.foldl (fun s other => if other.row < it.row then
          act (callbacks rowHasUndef findLeft (some find) optional) it other {s with compatibleWasFound := true} else s)
          {s with compatibleWasFound := false,outOfOrderFound := s.outOfOrderFound || (find it.row range).2}
        if t.compatibleWasFound then cover (callbacks rowHasUndef findLeft (some find) optional) it t
        else if hasNoMatch && containsNoUndefined (callbacks rowHasUndef findLeft (some find) optional) it.row then
          cover (callbacks rowHasUndef findLeft (some find) optional) it
            (notFound (callbacks rowHasUndef findLeft (some find) optional) it t)
        else t := rfl
    rw [unfolded,foldl_right]
    simp only [cover_eq,notFound_eq,callsOf,coversOf,smaller,same]
    cases none : ((find it.row range).1.filter (fun other => other.row < it.row)).isEmpty <;>
      cases hasNoMatch <;> cases free <;> cases optional <;> simp_all [setAll]

private theorem mergeWithUndefLeft_effect (it : Iter ρ) (range : List (Iter ρ))
    (s : State (List Call)) :
    (mergeWithUndefLeft (callbacks rowHasUndef findLeft findRight optional) it range s).target =
      s.target ++ callsOf rowHasUndef findLeft findRight optional (.left it range) ∧
    (mergeWithUndefLeft (callbacks rowHasUndef findLeft findRight optional) it range s).coveredFromLeft =
      if optional then setAll s.coveredFromLeft
        (coversOf rowHasUndef findLeft findRight optional (.left it range)) else s.coveredFromLeft := by
  cases findLeft with
  | none =>
    have unfolded : mergeWithUndefLeft (callbacks rowHasUndef none findRight optional) it range s = s := rfl
    simp [unfolded,callsOf,coversOf,smaller,setAll]
  | some find =>
    have unfolded : mergeWithUndefLeft (callbacks rowHasUndef (some find) findRight optional) it range s =
        (find it.row range).1.foldl (fun s other => if other.row < it.row then
          cover (callbacks rowHasUndef (some find) findRight optional) other
            (act (callbacks rowHasUndef (some find) findRight optional) other it s) else s)
          {s with outOfOrderFound := s.outOfOrderFound || (find it.row range).2} := rfl
    rw [unfolded,foldl_left]
    exact ⟨rfl,rfl⟩

theorem visit_effect (v : Visit ρ) (s : State (List Call)) :
    (visit (callbacks rowHasUndef findLeft findRight optional) s v).target = s.target ++ callsOf rowHasUndef findLeft findRight optional v ∧
    (visit (callbacks rowHasUndef findLeft findRight optional) s v).coveredFromLeft =
      if optional then setAll s.coveredFromLeft (coversOf rowHasUndef findLeft findRight optional v) else s.coveredFromLeft := by
  cases v with
  | right it range hasNoMatch => exact mergeWithUndefRight_effect rowHasUndef findLeft findRight optional it range hasNoMatch s
  | left it range => exact mergeWithUndefLeft_effect rowHasUndef findLeft findRight optional it range s
  | same it others =>
    simp only [visit,foldl_same,cover_eq]
    exact ⟨rfl,rfl⟩

theorem visits_effect (visits : List (Visit ρ)) (s : State (List Call)) :
    (visits.foldl (visit (callbacks rowHasUndef findLeft findRight optional)) s).target =
      s.target ++ visits.flatMap (callsOf rowHasUndef findLeft findRight optional) ∧
    (visits.foldl (visit (callbacks rowHasUndef findLeft findRight optional)) s).coveredFromLeft =
      if optional then setAll s.coveredFromLeft (visits.flatMap (coversOf rowHasUndef findLeft findRight optional))
      else s.coveredFromLeft := by
  induction visits generalizing s with
  | nil => simp [setAll]
  | cons v visits ih =>
    obtain ⟨target,covered⟩ := visit_effect rowHasUndef findLeft findRight optional v s
    obtain ⟨restTarget,restCovered⟩ := ih (visit (callbacks rowHasUndef findLeft findRight optional) s v)
    rw [foldl_cons,restTarget,restCovered,target,covered]
    cases optional <;> simp [setAll]

end Effects

variable {Id : Type} [LinearOrder Id] [OrderBot Id]

def unmatched (right : List (Iter (List Id))) (it : Iter (List Id)) : Bool :=
  right.all (fun other => !compatible it.row other.row)

section Correct
variable {width : Nat} {left right : List (List Id)} {findLeft findRight : Option (FindUndef (List Id))}
  {optional : Bool}

def smallerCompatible (other it : Iter (List Id)) : Bool := other.row < it.row && compatible it.row other.row

variable {it : Iter (List Id)}

theorem smaller_perm {rows : List (List Id)} {find : Option (FindUndef (List Id))}
    {range : List (Iter (List Id))} (admissible : Admissible width rows find) (widths : ∀ row ∈ rows,row.length = width)
    (sorted : rows.Pairwise (· ≤ ·)) (itWidth : it.row.length = width) (isPrefix : range <+: iters 0 rows)
    (all : ∀ other ∈ iters 0 rows,other.row < it.row → other ∈ range) :
    (smaller find it range).Perm ((iters 0 rows).filter (smallerCompatible · it)) := by
  have rowOf : ∀ other ∈ iters 0 rows,other.row ∈ rows := by
    intro other member
    exact mem_of_getElem? ((mem_iters rows other).mp member)
  have undef : ∀ other ∈ iters 0 rows,other.row < it.row → compatible it.row other.row = true → ⊥ ∈ other.row := by
    intro other member less agree
    apply undef_of_lt other.row it.row _ (by rwa [compatible_comm]) less
    rw [widths _ (rowOf other member),itWidth]
  cases find with
  | none =>
    have none : (iters 0 rows).filter (smallerCompatible · it) = [] := by
      rw [filter_eq_nil_iff]
      intro other member found
      simp only [smallerCompatible,Bool.and_eq_true,decide_eq_true_eq] at found
      exact admissible _ (rowOf other member) (undef other member found.1 found.2)
    simp [smaller,none]
  | some find =>
    have rangeSorted : Sorted range := (sorted_iters 0 rows sorted).sublist isPrefix.sublist
    have rangeNodup : range.Nodup := (nodup_iters 0 rows).sublist isPrefix.sublist
    obtain ⟨nodup,found⟩ := admissible it.row range itWidth
      (fun other member => widths _ (rowOf other (isPrefix.subset member))) rangeSorted rangeNodup
    apply (perm_ext_iff_of_nodup (nodup.filter _) ((nodup_iters 0 rows).filter _)).mpr
    intro other
    simp only [mem_filter,found,smallerCompatible,Bool.and_eq_true,decide_eq_true_eq]
    constructor
    · rintro ⟨⟨member,less,agree,_⟩,_⟩
      exact ⟨isPrefix.subset member,less,by rwa [compatible_comm]⟩
    · rintro ⟨member,less,agree⟩
      exact ⟨⟨all other member less,less,by rwa [compatible_comm],undef other member less agree⟩,less⟩

/-- The preconditions of the join for rows of `width` join columns. -/
structure Valid (width : Nat) (left right : List (List Id)) (findLeft findRight : Option (FindUndef (List Id))) : Prop where
  widthLeft : ∀ row ∈ left,row.length = width
  widthRight : ∀ row ∈ right,row.length = width
  sortedLeft : left.Pairwise (· ≤ ·)
  sortedRight : right.Pairwise (· ≤ ·)
  admissibleLeft : Admissible width left findLeft
  admissibleRight : Admissible width right findRight

structure ExactCalls (width : Nat) (left right : List (List Id)) (findLeft findRight : Option (FindUndef (List Id))) : Prop where
  widthLeft : ∀ row ∈ left,row.length = width
  widthRight : ∀ row ∈ right,row.length = width
  sortedLeft : left.Pairwise (· ≤ ·)
  sortedRight : right.Pairwise (· ≤ ·)
  noop : findLeft = none → ∀ row ∈ left,⊥ ∉ row
  foundLeft : ∀ it ∈ iters 0 right,∀ range,range <+: iters 0 left → (∀ other ∈ iters 0 left,other.row < it.row → other ∈ range) →
    (smaller findLeft it range).Perm ((iters 0 left).filter (smallerCompatible · it))
  foundRight : ∀ it ∈ iters 0 left,∀ range,range <+: iters 0 right → (∀ other ∈ iters 0 right,other.row < it.row → other ∈ range) →
    (smaller findRight it range).Perm ((iters 0 right).filter (smallerCompatible · it))

theorem Valid.exactCalls (valid : Valid width left right findLeft findRight) : ExactCalls width left right findLeft findRight where
  widthLeft := valid.widthLeft
  widthRight := valid.widthRight
  sortedLeft := valid.sortedLeft
  sortedRight := valid.sortedRight
  noop := by
    rintro rfl
    exact valid.admissibleLeft
  foundLeft := by
    intro it member range isPrefix all
    have itWidth := valid.widthRight _ (mem_of_getElem? ((mem_iters right it).mp member))
    exact smaller_perm valid.admissibleLeft valid.widthLeft valid.sortedLeft itWidth isPrefix all
  foundRight := by
    intro it member range isPrefix all
    have itWidth := valid.widthLeft _ (mem_of_getElem? ((mem_iters left it).mp member))
    exact smaller_perm valid.admissibleRight valid.widthRight valid.sortedRight itWidth isPrefix all

section
local instance lawfulIds : LawfulBEq Id := inferInstance

/-- `rowHasUndef` as in the source. -/
def hasUndef (row : List Id) : Bool := ⊥ ∈ row

end

def noUndefined (findLeft findRight : Option (FindUndef (List Id))) (optional : Bool) (it : Iter (List Id)) : Bool :=
  containsNoUndefined (callbacks hasUndef findLeft findRight optional) it.row

def compatibleCall (pair : Iter (List Id) × Iter (List Id)) : Call := .compatibleRowAction pair.1.pos pair.2.pos

def notFoundCall (it : Iter (List Id)) : Call := .elFromFirstNotFoundAction it.pos

def reported (right : List (List Id)) (findLeft findRight : Option (FindUndef (List Id))) (optional : Bool)
    (it : Iter (List Id)) : Bool :=
  ((iters 0 right).filter (smallerCompatible · it)).isEmpty && !hasEqual (iters 0 right) it &&
    noUndefined findLeft findRight optional it && optional

section
variable (optional : Bool) (exactCalls : ExactCalls width left right findLeft findRight) (v : Visit (List Id)) (sound : v.Sound (iters 0 left) (iters 0 right))
  (member : ∀ it,v.right? = some it → it ∈ iters 0 left) (member' : ∀ it,v.left? = some it → it ∈ iters 0 right)
include exactCalls sound member member'

theorem callsOf_perm :
    (callsOf hasUndef findLeft findRight optional v).Perm (v.select
      (fun it => ((iters 0 right).filter (smallerCompatible · it)).map (fun other => compatibleCall (it,other)) ++
        if reported right findLeft findRight optional it then [notFoundCall it] else [])
      (fun it => ((iters 0 left).filter (smallerCompatible · it)).map (fun other => compatibleCall (other,it)))
      (fun it => ((iters 0 right).filter (equalRow · it)).map (fun other => compatibleCall (it,other)))) := by
  cases v with
  | right it range hasNoMatch =>
    obtain ⟨isPrefix,all,flag⟩ := sound
    have found := exactCalls.foundRight it (member it rfl) range isPrefix all
    simp only [callsOf,Visit.select,reported,noUndefined,flag,found.isEmpty_eq]
    exact (found.map _).append_right _
  | left it range =>
    obtain ⟨isPrefix,all⟩ := sound
    exact (exactCalls.foundLeft it (member' it rfl) range isPrefix all).map _
  | same it others =>
    have equal : others = (iters 0 right).filter (equalRow · it) := sound
    rw [callsOf,equal]
    exact List.Perm.refl _

theorem coversOf_perm :
    (coversOf hasUndef findLeft findRight optional v).Perm (v.select
      (fun it => if !((iters 0 right).filter (smallerCompatible · it)).isEmpty ||
        (!hasEqual (iters 0 right) it && noUndefined findLeft findRight optional it) then [it.pos] else [])
      (fun it => ((iters 0 left).filter (smallerCompatible · it)).map Iter.pos)
      (fun it => [it.pos])) := by
  cases v with
  | right it range hasNoMatch =>
    obtain ⟨isPrefix,all,flag⟩ := sound
    have found := exactCalls.foundRight it (member it rfl) range isPrefix all
    simp only [coversOf,Visit.select,noUndefined,flag,found.isEmpty_eq]
    exact List.Perm.refl _
  | left it range =>
    obtain ⟨isPrefix,all⟩ := sound
    exact (exactCalls.foundLeft it (member' it rfl) range isPrefix all).map _
  | same it others => exact List.Perm.refl _

end

theorem matches_perm (left right : List (Iter (List Id))) :
    (left.flatMap (fun it => (right.filter (smallerCompatible · it)).map (fun other => compatibleCall (it,other))) ++
      right.flatMap (fun it => (left.filter (smallerCompatible · it)).map (fun other => compatibleCall (other,it))) ++
      (left.filter (hasEqual right)).flatMap (fun it => (right.filter (equalRow · it)).map
        (fun other => compatibleCall (it,other)))).Perm
      ((nestedLoop (fun a b => compatible a.row b.row) left right).map compatibleCall) := by
  have first : left.flatMap (fun it => (right.filter (smallerCompatible · it)).map (fun other => compatibleCall (it,other))) =
      (nestedLoop (fun a b => smallerCompatible b a) left right).map compatibleCall := by
    simp [nestedLoop,map_flatMap,Function.comp_def]
  have second : (right.flatMap (fun it => (left.filter (smallerCompatible · it)).map
      (fun other => compatibleCall (other,it)))).Perm ((nestedLoop smallerCompatible left right).map compatibleCall) := by
    simpa [map_flatMap,Function.comp_def] using (nestedLoop_swap smallerCompatible left right).map compatibleCall
  have third : (left.filter (hasEqual right)).flatMap (fun it => (right.filter (equalRow · it)).map
      (fun other => compatibleCall (it,other))) =
      (nestedLoop (fun a b => equalRow b a) left right).map compatibleCall := by
    rw [flatMap_filter_of_nil]
    · simp [nestedLoop,map_flatMap,Function.comp_def]
    · intro it _ none
      simp only [hasEqual,any_eq_false] at none
      simpa [filter_eq_nil_iff,equalRow] using none
  rw [first,third]
  apply ((second.append_left _).append_right _).trans
  rw [← map_append,← map_append]
  apply List.Perm.map
  have split : nestedLoop (fun a b => compatible a.row b.row) left right =
      nestedLoop (fun a b => (smallerCompatible b a || smallerCompatible a b) || equalRow b a) left right := by
    apply nestedLoop_congr
    intro a _ b _
    rw [smallerCompatible,smallerCompatible,equalRow,compatible_comm b.row a.row]
    rcases lt_trichotomy a.row b.row with less | same | more
    · simp [less,less.not_gt,less.ne']
    · simp [same,compatible_self]
    · simp [more,more.not_gt,more.ne]
  rw [split]
  apply List.Perm.symm
  apply (nestedLoop_or _ _ _ _ _).trans
  · apply List.Perm.append_right
    apply nestedLoop_or
    rintro a _ b _ ⟨less,more⟩
    simp only [smallerCompatible,Bool.and_eq_true,decide_eq_true_eq] at less more
    exact absurd less.1 more.1.not_gt
  · rintro a _ b _ ⟨differ,same⟩
    simp only [smallerCompatible,equalRow,Bool.or_eq_true,Bool.and_eq_true,decide_eq_true_eq] at differ same
    rcases differ with ⟨less,_⟩ | ⟨less,_⟩
    · exact less.ne same
    · exact less.ne' same

theorem unmatched_eq_false {its : List (Iter (List Id))} :
    unmatched its it = false ↔ ∃ other ∈ its,compatible it.row other.row = true := by
  simp [unmatched]

section
variable (exactCalls : ExactCalls width left right findLeft findRight) {it : Iter (List Id)}
include exactCalls

theorem not_smaller_of_noUndefined {other : Iter (List Id)}
    (member : it ∈ iters 0 left) (otherMember : other ∈ iters 0 right)
    (defined : noUndefined findLeft findRight optional it = true) : smallerCompatible it other = false := by
  have row := mem_of_getElem? ((mem_iters left it).mp member)
  have otherRow := mem_of_getElem? ((mem_iters right other).mp otherMember)
  have free : ⊥ ∉ it.row := by
    simp only [noUndefined,containsNoUndefined] at defined
    split at defined
    next bothNoop =>
      have none : findLeft = none := by simpa [callbacks] using (Bool.and_eq_true_iff.mp bothNoop).1
      subst none
      exact exactCalls.noop rfl it.row row
    next => simpa [callbacks,hasUndef] using defined
  rw [smallerCompatible,Bool.and_eq_false_iff]
  by_contra both
  simp only [not_or,Bool.not_eq_false,decide_eq_true_eq] at both
  apply free
  apply undef_of_lt it.row other.row _ (by rw [compatible_comm]; exact both.2) both.1
  rw [exactCalls.widthLeft _ row,exactCalls.widthRight _ otherRow]

theorem reported_eq (member : it ∈ iters 0 left) :
    reported right findLeft findRight optional it =
      (unmatched (iters 0 right) it && noUndefined findLeft findRight optional it && optional) := by
  cases defined : noUndefined findLeft findRight optional it with
  | false => simp [reported,defined]
  | true =>
    have test : (((iters 0 right).filter (smallerCompatible · it)).isEmpty && !hasEqual (iters 0 right) it) =
        unmatched (iters 0 right) it := by
      rw [Bool.eq_iff_iff]
      simp only [Bool.and_eq_true,List.isEmpty_iff,filter_eq_nil_iff,Bool.not_eq_true',hasEqual,any_eq_false,
        decide_eq_true_eq,unmatched,all_eq_true,Bool.not_eq_true]
      constructor
      · rintro ⟨noSmaller,noEqual⟩ other inside
        have notLarger := not_smaller_of_noUndefined exactCalls member inside defined
        have notSmaller := noSmaller other inside
        simp only [smallerCompatible,compatible_comm other.row,Bool.and_eq_false_iff,decide_eq_false_iff_not] at notLarger notSmaller
        rcases lt_trichotomy it.row other.row with less | same | more
        · simpa [less] using notLarger
        · exact absurd same.symm (noEqual other inside)
        · simpa [more] using notSmaller
      · intro none
        refine ⟨fun other inside => by simp [smallerCompatible,none other inside],?_⟩
        intro other inside same
        have conflict := none other inside
        rw [same,compatible_self] at conflict
        exact Bool.noConfusion conflict
    simp [reported,defined,test]

end

variable {visits : List (Visit (List Id))}

theorem mem_covers (exactCalls : ExactCalls width left right findLeft findRight)
    (complete : Complete (iters 0 left) (iters 0 right) visits) (member : it ∈ iters 0 left) :
    it.pos ∈ visits.flatMap (coversOf hasUndef findLeft findRight optional) ↔
      unmatched (iters 0 right) it = false ∨ noUndefined findLeft findRight optional it = true := by
  have covers := complete.flatMap_perm _ _ _ _ (fun v hv => coversOf_perm optional exactCalls v (complete.sound v hv)
    (complete.mem_left hv) (complete.mem_right hv))
  rw [covers.mem_iff]
  simp only [mem_append,mem_flatMap,mem_filter,List.mem_map,mem_singleton]
  constructor
  · rintro ((⟨other,inside,covered⟩ | ⟨other,inside,found,⟨foundLeft,less⟩,same⟩) | ⟨other,⟨inside,equal⟩,same⟩)
    · split at covered
      next test =>
        have same := eq_of_pos member inside (by simpa using covered)
        subst same
        rw [unmatched_eq_false]
        simp only [Bool.or_eq_true,Bool.not_eq_true',isEmpty_eq_false_iff_exists_mem,mem_filter,Bool.and_eq_true] at test
        rcases test with ⟨match',inside,test⟩ | test
        · exact Or.inl ⟨match',inside,(Bool.and_eq_true_iff.mp test).2⟩
        · exact Or.inr test.2
      next => simp at covered
    · have same := eq_of_pos foundLeft member same
      subst same
      rw [unmatched_eq_false]
      exact Or.inl ⟨other,inside,by rw [compatible_comm]; exact (Bool.and_eq_true_iff.mp less).2⟩
    · have same := eq_of_pos member inside same
      subst same
      rw [unmatched_eq_false]
      simp only [hasEqual,any_eq_true,decide_eq_true_eq] at equal
      obtain ⟨partner,hp,equal⟩ := equal
      exact Or.inl ⟨partner,hp,by rw [equal,compatible_self]⟩
  · intro covered
    cases equal : hasEqual (iters 0 right) it with
    | true => exact Or.inr ⟨it,⟨member,equal⟩,rfl⟩
    | false =>
      rcases covered with matched | defined
      · obtain ⟨other,inside,agree⟩ := unmatched_eq_false.mp matched
        rcases lt_trichotomy it.row other.row with less | same | more
        · exact Or.inl (Or.inr ⟨other,inside,it,⟨member,by simp [smallerCompatible,less,compatible_comm other.row,agree]⟩,rfl⟩)
        · simp only [hasEqual,any_eq_false,decide_eq_true_eq] at equal
          exact absurd same.symm (equal other inside)
        · refine Or.inl (Or.inl ⟨it,member,?_⟩)
          have some : ((iters 0 right).filter (smallerCompatible · it)).isEmpty = false := by
            rw [isEmpty_eq_false_iff_exists_mem]
            exact ⟨other,mem_filter.mpr ⟨inside,by simp [smallerCompatible,more,agree]⟩⟩
          simp [some]
      · exact Or.inl (Or.inl ⟨it,member,by simp [equal,defined]⟩)

theorem visits_calls_perm (optional : Bool) (exactCalls : ExactCalls width left right findLeft findRight)
    (complete : Complete (iters 0 left) (iters 0 right) visits) :
    (visits.flatMap (callsOf hasUndef findLeft findRight optional)).Perm
      ((nestedLoop (fun a b => compatible a.row b.row) (iters 0 left) (iters 0 right)).map compatibleCall ++
        ((iters 0 left).filter (reported right findLeft findRight optional)).map notFoundCall) := by
  have calls := complete.flatMap_perm _ _ _ _ (fun v hv => callsOf_perm optional exactCalls v (complete.sound v hv)
    (complete.mem_left hv) (complete.mem_right hv))
  apply calls.trans
  have split := flatMap_append_perm (iters 0 left)
    (fun it => ((iters 0 right).filter (smallerCompatible · it)).map (fun other => compatibleCall (it,other)))
    (fun it => if reported right findLeft findRight optional it then [notFoundCall it] else [])
  rw [flatMap_if_singleton] at split
  apply ((split.symm.append_right _).append_right _).trans
  rw [append_assoc,append_assoc]
  apply (List.Perm.append_left _ perm_append_comm).trans
  rw [← append_assoc,← append_assoc]
  exact (matches_perm _ _).append_right _

theorem foldl_notFound (its : List (Iter (List Id))) (s : State (List Call)) :
    (its.foldl (fun s it => notFound (callbacks hasUndef findLeft findRight true) it s) s).target =
      s.target ++ its.map notFoundCall := by
  induction its generalizing s with
  | nil => simp
  | cons it its ih =>
    rw [foldl_cons,ih]
    simp [notFound_eq,notFoundCall]

theorem reported_uncovered_perm (exactCalls : ExactCalls width left right findLeft findRight)
    (complete : Complete (iters 0 left) (iters 0 right) visits) :
    ((iters 0 left).filter (reported right findLeft findRight true) ++ (iters 0 left).filter
        (fun it => it.pos ∉ visits.flatMap (coversOf hasUndef findLeft findRight true))).Perm
      ((iters 0 left).filter (unmatched (iters 0 right))) := by
  have first : (iters 0 left).filter (reported right findLeft findRight true) =
      ((iters 0 left).filter (unmatched (iters 0 right))).filter (noUndefined findLeft findRight true) := by
    rw [filter_filter]
    apply filter_congr
    intro it member
    rw [reported_eq exactCalls member,Bool.and_true,Bool.and_comm]
  have second : (iters 0 left).filter (fun it => it.pos ∉ visits.flatMap (coversOf hasUndef findLeft findRight true)) =
      ((iters 0 left).filter (unmatched (iters 0 right))).filter (fun it => !noUndefined findLeft findRight true it) := by
    rw [filter_filter]
    apply filter_congr
    intro it member
    rw [Bool.eq_iff_iff]
    simp [mem_covers exactCalls complete member,and_comm]
  rw [first,second]
  exact filter_append_perm _ _

theorem join_perm (exactCalls : ExactCalls width left right findLeft findRight) :
    (join hasUndef findLeft findRight optional left right).Perm
      ((nestedLoop (fun a b => compatible a.row b.row) (iters 0 left) (iters 0 right)).map compatibleCall ++
        if optional then ((iters 0 left).filter (unmatched (iters 0 right))).map notFoundCall else []) := by
  obtain ⟨visits,run,complete⟩ := mergeAll_visits (callbacks hasUndef findLeft findRight optional)
    (sorted_iters 0 left exactCalls.sortedLeft) (sorted_iters 0 right exactCalls.sortedRight)
    (initialState (callbacks hasUndef findLeft findRight optional) (iters 0 left) [])
  obtain ⟨target,covered⟩ := visits_effect hasUndef findLeft findRight optional visits
    (initialState (callbacks hasUndef findLeft findRight optional) (iters 0 left) [])
  have calls := visits_calls_perm optional exactCalls complete
  rw [← run] at target covered
  simp only [join,zipperJoinWithUndef]
  cases optional with
  | false =>
    have never : (iters 0 left).filter (reported right findLeft findRight false) = [] := by
      simp [filter_eq_nil_iff,reported]
    simp only [callbacks,Callbacks.hasNotFoundAction,Bool.false_eq_true,if_false,Option.isSome_none,foldl_nil]
    rw [never] at calls
    exact (List.Perm.of_eq target).trans calls
  | true =>
    have initial : initialState (callbacks hasUndef findLeft findRight true) (iters 0 left) [] =
        ⟨[],replicate (iters 0 left).length false,false,false⟩ := rfl
    have present : (callbacks hasUndef findLeft findRight true).hasNotFoundAction = true := rfl
    rw [present,if_pos rfl,foldl_notFound,target,uncovered_eq 0 left _ _ (by rw [covered,initial]; rfl),if_pos rfl]
    apply (calls.append_right _).trans
    rw [append_assoc,← map_append]
    exact ((reported_uncovered_perm exactCalls complete).map _).append_left _

/-- The row `i` of `left` and the row `j` of `right` exist and are compatible. -/
def compatibleAt (left right : List (List Id)) (i j : Nat) : Bool :=
  match left[i]?,right[j]? with
  | some a,some b => compatible a b
  | _,_ => false

/-- The row `i` of `left` exists and no row of `right` is compatible with it. -/
def unmatchedAt (left right : List (List Id)) (i : Nat) : Bool :=
  match left[i]? with
  | some a => right.all (fun b => !compatible a b)
  | none => false

section
variable (left right : List (List Id))

theorem count_compatibleCall (i j : Nat) :
    ((nestedLoop (fun a b => compatible a.row b.row) (iters 0 left) (iters 0 right)).map compatibleCall).count
      (.compatibleRowAction i j) = if compatibleAt left right i j then 1 else 0 := by
  apply count_of_mem_iff
  · apply List.Nodup.map_on _ (nodup_nestedLoop _ _ _ (nodup_iters 0 left) (nodup_iters 0 right))
    rintro ⟨a,b⟩ member ⟨a',b'⟩ member' same
    rw [mem_nestedLoop] at member member'
    simp only [compatibleCall,Call.compatibleRowAction.injEq] at same
    rw [eq_of_pos member.1 member'.1 same.1,eq_of_pos member.2.1 member'.2.1 same.2]
  · simp only [List.mem_map,Prod.exists,mem_nestedLoop,mem_iters,compatibleCall,Call.compatibleRowAction.injEq]
    constructor
    · rintro ⟨a,b,⟨first,second,agree⟩,rfl,rfl⟩
      simp only [compatibleAt,first,second,agree]
    · intro agree
      simp only [compatibleAt] at agree
      split at agree
      next a b first second => exact ⟨⟨a,i⟩,⟨b,j⟩,⟨first,second,agree⟩,rfl,rfl⟩
      next => exact Bool.noConfusion agree

theorem count_notFoundCall (i : Nat) :
    (((iters 0 left).filter (unmatched (iters 0 right))).map notFoundCall).count (.elFromFirstNotFoundAction i) =
      if unmatchedAt left right i then 1 else 0 := by
  have rows : ∀ it,unmatched (iters 0 right) it = right.all (fun b => !compatible it.row b) := by
    intro it
    rw [← map_row_iters 0 right,all_map,map_row_iters]
    rfl
  apply count_of_mem_iff
  · apply List.Nodup.map_on _ ((nodup_iters 0 left).filter _)
    intro a member b member' same
    exact eq_of_pos (mem_filter.mp member).1 (mem_filter.mp member').1 (Call.elFromFirstNotFoundAction.inj same)
  · simp only [List.mem_map,mem_filter,mem_iters,notFoundCall,Call.elFromFirstNotFoundAction.injEq,rows]
    constructor
    · rintro ⟨a,⟨first,none⟩,rfl⟩
      simp only [unmatchedAt,first,none]
    · intro none
      simp only [unmatchedAt] at none
      split at none
      next a first => exact ⟨⟨a,i⟩,⟨first,none⟩,rfl⟩
      next => exact Bool.noConfusion none

theorem count_calls (optional : Bool) {calls : List Call}
    (isCalls : calls.Perm ((nestedLoop (fun a b => compatible a.row b.row) (iters 0 left) (iters 0 right)).map compatibleCall ++
      if optional then ((iters 0 left).filter (unmatched (iters 0 right))).map notFoundCall else [])) (i j : Nat) :
    calls.count (.compatibleRowAction i j) = (if compatibleAt left right i j then 1 else 0) ∧
      calls.count (.elFromFirstNotFoundAction i) = if optional && unmatchedAt left right i then 1 else 0 := by
  rw [isCalls.count_eq,isCalls.count_eq,count_append,count_append,count_compatibleCall]
  have noPair : (if optional then ((iters 0 left).filter (unmatched (iters 0 right))).map notFoundCall else []).count
      (.compatibleRowAction i j) = 0 := by
    apply count_eq_zero_of_not_mem
    cases optional <;> simp [notFoundCall]
  have noMiss : ((nestedLoop (fun a b => compatible a.row b.row) (iters 0 left) (iters 0 right)).map compatibleCall).count
      (.elFromFirstNotFoundAction i) = 0 := by
    apply count_eq_zero_of_not_mem
    simp [compatibleCall]
  rw [noPair,noMiss]
  cases optional with
  | false => simp
  | true => simp [count_notFoundCall]

end

/-- The join calls `compatibleRowAction` exactly once for every pair of compatible rows and
`elFromFirstNotFoundAction`, if there is one, exactly once for every row of `left` without a
compatible row. -/
theorem join_correct (valid : Valid width left right findLeft findRight) (i j : Nat) :
    (join hasUndef findLeft findRight optional left right).count (.compatibleRowAction i j) =
      (if compatibleAt left right i j then 1 else 0) ∧
    (join hasUndef findLeft findRight optional left right).count (.elFromFirstNotFoundAction i) =
      if optional && unmatchedAt left right i then 1 else 0 :=
  count_calls left right optional (join_perm valid.exactCalls) i j

/-- Columns with an UNDEF row and with an unmatched row. -/
theorem join_correct_columns :
    Valid 1 [[0],[1],[3]] [[1],[2]] (some (findSmallerUndefRangesArbitrary : FindUndef (List Nat))) none ∧
    (join hasUndef (some findSmallerUndefRangesArbitrary) none true [[0],[1],[3]] [[1],[2]]).count
      (.compatibleRowAction 0 1) = 1 ∧
    (join hasUndef (some findSmallerUndefRangesArbitrary) none true [[0],[1],[3]] [[1],[2]]).count
      (.elFromFirstNotFoundAction 2) = 1 := by
  have valid : Valid 1 [[0],[1],[3]] [[1],[2]] (some (findSmallerUndefRangesArbitrary : FindUndef (List Nat))) none :=
    ⟨by decide,by decide,by decide,by decide,findSmallerUndefRangesArbitrary_meetsContract 1,by simp [Admissible]⟩
  refine ⟨valid,?_,?_⟩
  · exact (join_correct valid 0 1).1
  · exact (join_correct valid 2 0).2

end Correct
end Qlever.UndefJoin
