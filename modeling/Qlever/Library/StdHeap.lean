import Qlever.Library.SortedMerge

/-! The algorithms on heaps of the standard library, by what they promise, and the merge of sorted runs with a heap of the runs.
-/
namespace Qlever.Library.StdHeap
open List

/-- `popHeap` moves an element that is smaller than no other one to the end. -/
structure HeapAlgorithms {α : Type} (comp : α → α → Bool) where
  IsHeap : List α → Prop
  makeHeap : List α → List α
  popHeap : List α → List α
  pushHeap : List α → List α
  makeHeap_perm : ∀ elements,(makeHeap elements).Perm elements
  popHeap_perm : ∀ elements,(popHeap elements).Perm elements
  pushHeap_perm : ∀ elements,(pushHeap elements).Perm elements
  isHeap_makeHeap : ∀ elements,IsHeap (makeHeap elements)
  isHeap_popHeap : ∀ elements,IsHeap elements → IsHeap (popHeap elements).dropLast
  isHeap_pushHeap : ∀ elements element,IsHeap elements → IsHeap (pushHeap (elements ++ [element]))
  popHeap_greatest : ∀ elements,IsHeap elements → ∀ top,(popHeap elements).getLast? = some top → ∀ other ∈ elements,comp top other = false

section Runs
variable {α : Type} (less : α → α → Bool)

/-- A run that is not at its end: its current element and those after it. A run is greater if its current element is smaller. -/
def compareRuns (first second : α × List α) : Bool := less second.1 first.1

variable {less} (heap : HeapAlgorithms (compareRuns less))

def nextElement (runs : List (α × List α)) : Option (α × List (α × List α)) :=
  let runs := heap.popHeap runs
  match runs.getLast? with
  | none => none
  | some (element,[]) => some (element,runs.dropLast)
  | some (element,next :: rest) => some (element,heap.pushHeap (runs.dropLast ++ [(next,rest)]))

def elementsOf (runs : List (α × List α)) : List α := runs.flatMap (fun run => run.1 :: run.2)

theorem elementsOf_perm {runs runs' : List (α × List α)} (same : runs.Perm runs') : (elementsOf runs).Perm (elementsOf runs') := same.flatMap_right _

theorem elementsOf_concat (runs : List (α × List α)) (run : α × List α) :
    (elementsOf (runs ++ [run])).Perm (run.1 :: (run.2 ++ elementsOf runs)) := by
  rw [elementsOf,flatMap_append,flatMap_singleton]
  exact perm_append_comm

def RunsSorted (less : α → α → Bool) (runs : List (α × List α)) : Prop :=
  ∀ run ∈ runs,(run.1 :: run.2).Pairwise (fun first second => less second first = false)

section
variable (order : IsStrictWeakOrder α (fun a b => less a b = true)) {runs : List (α × List α)} (isHeap : heap.IsHeap runs) (sorted : RunsSorted less runs)
include order isHeap sorted

theorem top_least {top : α × List α} (isTop : (heap.popHeap runs).getLast? = some top) :
    ∀ other ∈ elementsOf runs,less other top.1 = false := by
  intro other isOther
  obtain ⟨run,isRun,isOther⟩ := mem_flatMap.mp isOther
  have notGreater : less run.1 top.1 = false := heap.popHeap_greatest runs isHeap top isTop run isRun
  rcases mem_cons.mp isOther with rfl | isLater
  · exact notGreater
  · rw [← Bool.not_eq_true] at notGreater ⊢
    exact not_before_trans order (Bool.not_eq_true _ ▸ (pairwise_cons.mp (sorted run isRun)).1 other isLater) notGreater

theorem nextElement_spec (notEmpty : runs ≠ []) :
    ∃ element runs',nextElement heap runs = some (element,runs') ∧ heap.IsHeap runs' ∧ RunsSorted less runs' ∧
      (elementsOf runs).Perm (element :: elementsOf runs') ∧ ∀ other ∈ elementsOf runs,less other element = false := by
  have popped := heap.popHeap_perm runs
  have isHeapPopped := heap.isHeap_popHeap runs isHeap
  have least : ∀ top,(heap.popHeap runs).getLast? = some top → ∀ other ∈ elementsOf runs,less other top.1 = false := fun top isTop =>
    top_least heap order isHeap sorted isTop
  rw [nextElement]
  rcases List.eq_nil_or_concat (heap.popHeap runs) with none | ⟨others,⟨element,rest⟩,parts⟩
  · rw [none] at popped
    exact absurd popped.symm.eq_nil notEmpty
  · rw [concat_eq_append] at parts
    rw [parts] at popped isHeapPopped least ⊢
    rw [getLast?_concat] at least
    rw [List.dropLast_concat] at isHeapPopped
    simp only [getLast?_concat,List.dropLast_concat]
    have sortedOthers : RunsSorted less others := fun run isRun => sorted run (popped.mem_iff.mp (mem_append_left _ isRun))
    have sortedRun := sorted (element,rest) (popped.mem_iff.mp (mem_append_right _ mem_cons_self))
    have elements : (elementsOf runs).Perm (element :: (rest ++ elementsOf others)) :=
      (elementsOf_perm popped.symm).trans (elementsOf_concat others (element,rest))
    cases rest with
    | nil => exact ⟨element,others,rfl,isHeapPopped,sortedOthers,elements,least _ rfl⟩
    | cons next rest =>
      have pushed := heap.pushHeap_perm (others ++ [(next,rest)])
      refine ⟨element,_,rfl,heap.isHeap_pushHeap others _ isHeapPopped,?_,?_,least _ rfl⟩
      · intro run isRun
        rcases mem_append.mp (pushed.mem_iff.mp isRun) with isOther | isAdvanced
        · exact sortedOthers run isOther
        · rw [mem_singleton.mp isAdvanced]
          exact (pairwise_cons.mp sortedRun).2
      · refine elements.trans (List.Perm.cons element ?_)
        exact (elementsOf_concat others (next,rest)).symm.trans (elementsOf_perm pushed.symm)

end

def mergedElements : Nat → List (α × List α) → List α
  | 0,_ => []
  | fuel + 1,runs =>
    match nextElement heap runs with
    | none => []
    | some (element,runs) => element :: mergedElements fuel runs

theorem mergedElements_spec (order : IsStrictWeakOrder α (fun a b => less a b = true)) (fuel : Nat) (runs : List (α × List α))
    (enough : (elementsOf runs).length ≤ fuel) (isHeap : heap.IsHeap runs) (sorted : RunsSorted less runs) :
    (mergedElements heap fuel runs).Perm (elementsOf runs) ∧
      (mergedElements heap fuel runs).Pairwise (fun first second => less second first = false) := by
  induction fuel generalizing runs with
  | zero =>
    rw [length_eq_zero_iff.mp (Nat.le_zero.mp enough)]
    exact ⟨.refl _,.nil⟩
  | succ fuel ih =>
    rw [mergedElements]
    by_cases empty : runs = []
    · have popped := heap.popHeap_perm runs
      rw [empty] at popped ⊢
      rw [nextElement,popped.eq_nil]
      exact ⟨.refl _,.nil⟩
    · obtain ⟨element,runs',isNext,isHeap',sorted',elements,least⟩ := nextElement_spec heap order isHeap sorted empty
      have fewer : (elementsOf runs').length ≤ fuel := by
        have length := elements.length_eq
        rw [length_cons] at length
        omega
      obtain ⟨rest,sortedRest⟩ := ih runs' fewer isHeap' sorted'
      rw [isNext]
      refine ⟨(rest.cons element).trans elements.symm,pairwise_cons.mpr ⟨?_,sortedRest⟩⟩
      intro other isOther
      exact least other (elements.mem_iff.mpr (mem_cons_of_mem element (rest.mem_iff.mp isOther)))

end Runs

section Instance
variable {α : Type} (comp : α → α → Bool)

def greatestLast (best : α) : List α → List α
  | [] => [best]
  | element :: elements => if comp best element then best :: greatestLast element elements else element :: greatestLast best elements

theorem greatestLast_perm (best : α) (elements : List α) : (greatestLast comp best elements).Perm (best :: elements) := by
  induction elements generalizing best with
  | nil => exact .refl _
  | cons element elements ih =>
    rw [greatestLast]
    split
    · exact (ih element).cons best
    · exact ((ih best).cons element).trans (.swap best element elements)

theorem greatestLast_greatest (order : IsStrictWeakOrder α (fun a b => comp a b = true)) (best : α) (elements : List α) (top : α)
    (isTop : (greatestLast comp best elements).getLast? = some top) : ∀ other ∈ best :: elements,comp top other = false := by
  induction elements generalizing best with
  | nil =>
    rw [greatestLast,getLast?_singleton,Option.some.injEq] at isTop
    intro other isOther
    rw [mem_singleton.mp isOther,← isTop,← Bool.not_eq_true]
    exact order.irrefl best
  | cons element elements ih =>
    have notEmpty : ∀ first,greatestLast comp first elements ≠ [] := fun first none => by
      have perm := greatestLast_perm comp first elements
      rw [none] at perm
      exact not_perm_cons_nil perm.symm
    rw [greatestLast] at isTop
    cases smaller : comp best element with
    | true =>
      rw [if_pos smaller,getLast?_cons,getLast?_eq_some_getLast (notEmpty element),Option.getD_some] at isTop
      have greatest := ih element (by rw [getLast?_eq_some_getLast (notEmpty element),isTop])
      intro other isOther
      rcases mem_cons.mp isOther with rfl | isLater
      · -- `best` is smaller than `element`, which is not greater than the top.
        have notGreater := greatest element mem_cons_self
        rw [← Bool.not_eq_true] at notGreater ⊢
        exact fun greater => notGreater (order.trans _ _ _ greater smaller)
      · exact greatest other isLater
    | false =>
      rw [if_neg (by rw [smaller]; exact Bool.false_ne_true),getLast?_cons,getLast?_eq_some_getLast (notEmpty best),Option.getD_some] at isTop
      have greatest := ih best (by rw [getLast?_eq_some_getLast (notEmpty best),isTop])
      intro other isOther
      rcases mem_cons.mp isOther with rfl | isLater
      · exact greatest other mem_cons_self
      · rcases mem_cons.mp isLater with rfl | isLater
        · have notGreater := greatest best mem_cons_self
          rw [← Bool.not_eq_true] at notGreater smaller ⊢
          exact not_before_trans order notGreater smaller
        · exact greatest other (mem_cons_of_mem _ isLater)

def searchedHeap {comp : α → α → Bool} (order : IsStrictWeakOrder α (fun a b => comp a b = true)) : HeapAlgorithms comp where
  IsHeap _ := True
  makeHeap elements := elements
  popHeap elements := match elements with
    | [] => []
    | first :: others => greatestLast comp first others
  pushHeap elements := elements
  makeHeap_perm _ := .refl _
  popHeap_perm elements := by
    cases elements with
    | nil => exact .refl _
    | cons first others => exact greatestLast_perm comp first others
  pushHeap_perm _ := .refl _
  isHeap_makeHeap _ := trivial
  isHeap_popHeap _ _ := trivial
  isHeap_pushHeap _ _ _ := trivial
  popHeap_greatest elements _ top isTop := by
    cases elements with
    | nil => exact fun other isOther => absurd isOther not_mem_nil
    | cons first others => exact greatestLast_greatest comp order first others top isTop

end Instance

end Qlever.Library.StdHeap
