import Qlever.Library.SortedMerge

/-! `ParallelMultiwayMerge.h`: sorted ranges are merged by a tree of binary merges, each of which yields its elements in blocks. A generator is the list
of the blocks that it yields, and `runStreamAsync` passes the blocks on in order.
-/
namespace Qlever.ParallelMultiwayMerge
open Library List

section Blocks
variable {T : Type} (SizeGetter : T → Nat) (maxMem maxBlockSize : Nat)

structure Output (T : Type) where
  yielded : List (List T) := []
  buffer : List T := []
  sizeOfCurrentBlock : Nat := 0

namespace Output

def pushToBuffer (output : Output T) (el : T) : Output T :=
  { output with buffer := output.buffer ++ [el],sizeOfCurrentBlock := output.sizeOfCurrentBlock + SizeGetter el }

def isBufferLargeEnough (output : Output T) : Bool := output.buffer.length ≥ maxBlockSize || output.sizeOfCurrentBlock ≥ maxMem

/-- `co_yield buffer; clearBuffer();` -/
def yieldBuffer (output : Output T) : Output T := ⟨output.yielded ++ [output.buffer],[],0⟩

def yieldIfLargeEnough (output : Output T) : Output T := if output.isBufferLargeEnough maxMem maxBlockSize then output.yieldBuffer else output

def yieldRemainder (output : Output T) (range : List T) : Output T :=
  range.foldl (fun output el => (output.pushToBuffer SizeGetter el).yieldIfLargeEnough maxMem maxBlockSize) output

def finish (output : Output T) : List (List T) := if output.buffer.isEmpty then output.yielded else output.yielded ++ [output.buffer]

end Output

/-- The loop ends with the range that is exhausted first. The ranges that are returned are what `it1` and `it2` still have. -/
def mergeLoop (comparison : T → T → Bool) : Output T → List T → List T → Output T × List T × List T
  | output,el1 :: range1,el2 :: range2 =>
    if comparison el1 el2 then
      let output := output.pushToBuffer SizeGetter el1
      if range1.isEmpty then (output,range1,el2 :: range2)
      else mergeLoop comparison (output.yieldIfLargeEnough maxMem maxBlockSize) range1 (el2 :: range2)
    else
      let output := output.pushToBuffer SizeGetter el2
      if range2.isEmpty then (output,el1 :: range1,range2)
      else mergeLoop comparison (output.yieldIfLargeEnough maxMem maxBlockSize) (el1 :: range1) range2
  | output,range1,range2 => (output,range1,range2)
  termination_by _ range1 range2 => range1.length + range2.length

def lazyBinaryMerge (comparison : T → T → Bool) (range1 range2 : List T) : List (List T) :=
  let (output,rest1,rest2) := mergeLoop SizeGetter maxMem maxBlockSize comparison {} range1 range2
  ((output.yieldRemainder SizeGetter maxMem maxBlockSize rest1).yieldRemainder SizeGetter maxMem maxBlockSize rest2).finish

def batchToVector (range : List T) : List (List T) := (({} : Output T).yieldRemainder SizeGetter maxMem maxBlockSize range).finish

/-- `none` is the failure of the check that there is a range. -/
def parallelMultiwayMergeImpl (comparison : T → T → Bool) : List (List T) → Option (List (List T))
  | [] => none
  | [range] => some (batchToVector SizeGetter maxMem maxBlockSize range)
  | [range1,range2] => some (lazyBinaryMerge SizeGetter maxMem maxBlockSize comparison range1 range2)
  | range1 :: range2 :: range3 :: ranges => do
    let rangeOfRanges := range1 :: range2 :: range3 :: ranges
    let split := rangeOfRanges.length / 2
    let mergeRange1 ← parallelMultiwayMergeImpl comparison (rangeOfRanges.take split)
    let mergeRange2 ← parallelMultiwayMergeImpl comparison (rangeOfRanges.drop split)
    some (lazyBinaryMerge SizeGetter maxMem maxBlockSize comparison mergeRange1.flatten mergeRange2.flatten)
  termination_by rangeOfRanges => rangeOfRanges.length
  decreasing_by
    all_goals simp only [length_take,length_drop,length_cons]; omega

/-- `divide` is the division of a `MemorySize`, which is done with doubles. -/
def parallelMultiwayMerge (divide : Nat → Nat → Nat) (memoryLimit : Nat) (rangeOfRanges : List (List T)) (comparison : T → T → Bool)
    (blocksize : Nat) : Option (List (List T)) :=
  if rangeOfRanges.isEmpty then none
  else parallelMultiwayMergeImpl SizeGetter (divide memoryLimit rangeOfRanges.length) blocksize comparison rangeOfRanges

end Blocks

section Elements
variable {T : Type} {SizeGetter : T → Nat} {maxMem maxBlockSize : Nat}

namespace Output

def elements (output : Output T) : List T := output.yielded.flatten ++ output.buffer

def NoEmptyBlock (output : Output T) : Prop := ∀ block ∈ output.yielded,block ≠ []

variable (output : Output T)

theorem elements_pushToBuffer (el : T) : (output.pushToBuffer SizeGetter el).elements = output.elements ++ [el] := by
  simp only [elements,pushToBuffer,append_assoc]

theorem elements_yieldIfLargeEnough : (output.yieldIfLargeEnough maxMem maxBlockSize).elements = output.elements := by
  rw [yieldIfLargeEnough]
  split
  · simp [elements,yieldBuffer]
  · rfl

variable {output : Output T}

theorem noEmptyBlock_yieldIfLargeEnough (noEmptyBlock : output.NoEmptyBlock) (el : T) :
    ((output.pushToBuffer SizeGetter el).yieldIfLargeEnough maxMem maxBlockSize).NoEmptyBlock := by
  rw [yieldIfLargeEnough]
  split
  · intro block isBlock
    rcases mem_append.mp isBlock with isOld | isNew
    · exact noEmptyBlock block isOld
    · rw [mem_singleton.mp isNew]
      exact concat_ne_nil el output.buffer
  · exact noEmptyBlock

theorem elements_yieldRemainder (range : List T) :
    (output.yieldRemainder SizeGetter maxMem maxBlockSize range).elements = output.elements ++ range := by
  induction range generalizing output with
  | nil => exact (append_nil _).symm
  | cons el range ih =>
    rw [yieldRemainder,foldl_cons,← yieldRemainder,ih,elements_yieldIfLargeEnough,elements_pushToBuffer,append_assoc,singleton_append]

theorem noEmptyBlock_yieldRemainder (noEmptyBlock : output.NoEmptyBlock) (range : List T) :
    (output.yieldRemainder SizeGetter maxMem maxBlockSize range).NoEmptyBlock := by
  induction range generalizing output with
  | nil => exact noEmptyBlock
  | cons el range ih => exact ih (noEmptyBlock_yieldIfLargeEnough noEmptyBlock el)

theorem flatten_finish : output.finish.flatten = output.elements := by
  rw [finish,elements]
  split
  case isTrue empty => rw [List.isEmpty_iff.mp empty,append_nil]
  case isFalse => rw [flatten_append,flatten_singleton]

theorem ne_nil_of_mem_finish (noEmptyBlock : output.NoEmptyBlock) : ∀ block ∈ output.finish,block ≠ [] := by
  intro block isBlock
  rw [finish] at isBlock
  split at isBlock
  case isTrue => exact noEmptyBlock block isBlock
  case isFalse notEmpty =>
    rcases mem_append.mp isBlock with isOld | isLast
    · exact noEmptyBlock block isOld
    · rw [mem_singleton.mp isLast]
      exact fun empty => notEmpty (List.isEmpty_iff.mpr empty)

end Output

open Output

variable {comparison : T → T → Bool}

theorem mergeLoop_spec (output : Output T) (range1 range2 : List T) (noEmptyBlock : output.NoEmptyBlock) :
    let result := mergeLoop SizeGetter maxMem maxBlockSize comparison output range1 range2
    result.1.elements ++ result.2.1 ++ result.2.2 = output.elements ++ List.merge range2 range1 (fun a b => !comparison b a) ∧
      result.1.NoEmptyBlock := by
  induction output,range1,range2 using mergeLoop.induct SizeGetter maxMem maxBlockSize comparison with
  | case1 output el1 range1 el2 range2 smaller empty =>
    rw [mergeLoop,if_pos smaller,if_pos empty,List.isEmpty_iff.mp empty,cons_merge_cons_neg _ _ _ (by simp [smaller]),merge_right]
    refine ⟨?_,noEmptyBlock⟩
    simp only [elements_pushToBuffer,append_nil,append_assoc,singleton_append]
  | case2 output el1 range1 el2 range2 smaller pushed notEmpty ih =>
    rw [mergeLoop,if_pos smaller,if_neg notEmpty,cons_merge_cons_neg _ _ _ (by simp [smaller])]
    obtain ⟨elements,noEmptyBlock'⟩ := ih (noEmptyBlock_yieldIfLargeEnough noEmptyBlock el1)
    refine ⟨?_,noEmptyBlock'⟩
    rw [elements,elements_yieldIfLargeEnough,elements_pushToBuffer,append_assoc,singleton_append]
  | case3 output el1 range1 el2 range2 notSmaller empty =>
    rw [mergeLoop,if_neg notSmaller,if_pos empty,List.isEmpty_iff.mp empty,cons_merge_cons_pos _ _ _ (by simpa using notSmaller),nil_merge]
    refine ⟨?_,noEmptyBlock⟩
    simp only [elements_pushToBuffer,append_nil,append_assoc,singleton_append]
  | case4 output el1 range1 el2 range2 notSmaller pushed notEmpty ih =>
    rw [mergeLoop,if_neg notSmaller,if_neg notEmpty,cons_merge_cons_pos _ _ _ (by simpa using notSmaller)]
    obtain ⟨elements,noEmptyBlock'⟩ := ih (noEmptyBlock_yieldIfLargeEnough noEmptyBlock el2)
    refine ⟨?_,noEmptyBlock'⟩
    rw [elements,elements_yieldIfLargeEnough,elements_pushToBuffer,append_assoc,singleton_append]
  | case5 output range1 range2 exhausted =>
    cases range1 with
    | nil =>
      rw [mergeLoop.eq_2 _ _ _ _ _ _ _ exhausted,merge_right]
      exact ⟨by rw [append_nil],noEmptyBlock⟩
    | cons el1 range1 =>
      cases range2 with
      | nil =>
        rw [mergeLoop.eq_2 _ _ _ _ _ _ _ exhausted,nil_merge]
        exact ⟨append_nil _,noEmptyBlock⟩
      | cons el2 range2 => exact (exhausted el1 range1 el2 range2 rfl rfl).elim

theorem lazyBinaryMerge_spec (range1 range2 : List T) :
    (lazyBinaryMerge SizeGetter maxMem maxBlockSize comparison range1 range2).flatten = List.merge range2 range1 (fun a b => !comparison b a) ∧
      ∀ block ∈ lazyBinaryMerge SizeGetter maxMem maxBlockSize comparison range1 range2,block ≠ [] := by
  have none : ({} : Output T).NoEmptyBlock := fun block isBlock => absurd isBlock not_mem_nil
  obtain ⟨elements,noEmptyBlock⟩ := mergeLoop_spec {} range1 range2 none
  rw [lazyBinaryMerge]
  refine ⟨?_,ne_nil_of_mem_finish (noEmptyBlock_yieldRemainder (noEmptyBlock_yieldRemainder noEmptyBlock _) _)⟩
  rw [flatten_finish,elements_yieldRemainder,elements_yieldRemainder,elements]
  rfl

theorem batchToVector_spec (range : List T) :
    (batchToVector SizeGetter maxMem maxBlockSize range).flatten = range ∧ ∀ block ∈ batchToVector SizeGetter maxMem maxBlockSize range,block ≠ [] := by
  have none : ({} : Output T).NoEmptyBlock := fun block isBlock => absurd isBlock not_mem_nil
  refine ⟨?_,ne_nil_of_mem_finish (noEmptyBlock_yieldRemainder none range)⟩
  rw [batchToVector,flatten_finish,elements_yieldRemainder]
  rfl

end Elements

section Tree
variable {T : Type} {SizeGetter : T → Nat} {maxMem maxBlockSize : Nat} {comparison : T → T → Bool}

def merged (comparison : T → T → Bool) : List (List T) → List T
  | [] => []
  | [range] => range
  | [range1,range2] => List.merge range2 range1 (fun a b => !comparison b a)
  | range1 :: range2 :: range3 :: ranges =>
    let rangeOfRanges := range1 :: range2 :: range3 :: ranges
    let split := rangeOfRanges.length / 2
    List.merge (merged comparison (rangeOfRanges.drop split)) (merged comparison (rangeOfRanges.take split)) (fun a b => !comparison b a)
  termination_by rangeOfRanges => rangeOfRanges.length
  decreasing_by
    all_goals simp only [length_take,length_drop,length_cons]; omega

theorem merged_perm (comparison : T → T → Bool) (rangeOfRanges : List (List T)) : (merged comparison rangeOfRanges).Perm rangeOfRanges.flatten := by
  induction rangeOfRanges using merged.induct with
  | case1 => rw [merged,flatten_nil]
  | case2 range => rw [merged,flatten_singleton]
  | case3 range1 range2 =>
    rw [merged,flatten_cons,flatten_singleton]
    exact (merge_perm_append _).trans perm_append_comm
  | case4 range1 range2 range3 ranges rangeOfRanges split ihRight ihLeft =>
    rw [merged]
    calc
      List.merge (merged comparison (rangeOfRanges.drop split)) (merged comparison (rangeOfRanges.take split)) (fun a b => !comparison b a)
      _ |>.Perm (merged comparison (rangeOfRanges.drop split) ++ merged comparison (rangeOfRanges.take split)) := merge_perm_append _
      _ |>.Perm ((rangeOfRanges.drop split).flatten ++ (rangeOfRanges.take split).flatten) := ihRight.append ihLeft
      _ |>.Perm ((rangeOfRanges.take split).flatten ++ (rangeOfRanges.drop split).flatten) := perm_append_comm
      _ = rangeOfRanges.flatten := by rw [← flatten_append,take_append_drop]

variable {rangeOfRanges : List (List T)}

theorem merged_sorted (order : IsStrictWeakOrder T (fun a b => comparison a b = true))
    (sorted : ∀ range ∈ rangeOfRanges,range.Pairwise (fun a b => comparison b a = false)) :
    (merged comparison rangeOfRanges).Pairwise (fun a b => comparison b a = false) := by
  induction rangeOfRanges using merged.induct with
  | case1 =>
    rw [merged]
    exact .nil
  | case2 range =>
    rw [merged]
    exact sorted range mem_cons_self
  | case3 range1 range2 =>
    rw [merged]
    exact merge_sorted order (sorted range1 mem_cons_self) (sorted range2 (mem_cons_of_mem _ mem_cons_self))
  | case4 range1 range2 range3 ranges rangeOfRanges split ihRight ihLeft =>
    rw [merged]
    exact merge_sorted order (ihLeft (fun range isRange => sorted range (mem_of_mem_take isRange)))
      (ihRight (fun range isRange => sorted range (mem_of_mem_drop isRange)))

theorem parallelMultiwayMergeImpl_spec (notEmpty : rangeOfRanges ≠ []) :
    ∃ blocks,parallelMultiwayMergeImpl SizeGetter maxMem maxBlockSize comparison rangeOfRanges = some blocks ∧
      blocks.flatten = merged comparison rangeOfRanges ∧ ∀ block ∈ blocks,block ≠ [] := by
  induction rangeOfRanges using merged.induct with
  | case1 => exact absurd rfl notEmpty
  | case2 range =>
    rw [parallelMultiwayMergeImpl,merged]
    exact ⟨_,rfl,batchToVector_spec range⟩
  | case3 range1 range2 =>
    rw [parallelMultiwayMergeImpl,merged]
    exact ⟨_,rfl,lazyBinaryMerge_spec range1 range2⟩
  | case4 range1 range2 range3 ranges rangeOfRanges split ihRight ihLeft =>
    have length : rangeOfRanges.length = ranges.length + 3 := rfl
    have leftNotEmpty : rangeOfRanges.take split ≠ [] := by
      rw [← length_pos_iff,length_take]
      omega
    have rightNotEmpty : rangeOfRanges.drop split ≠ [] := by
      rw [← length_pos_iff,length_drop]
      omega
    obtain ⟨left,isLeft,leftElements,-⟩ := ihLeft leftNotEmpty
    obtain ⟨right,isRight,rightElements,-⟩ := ihRight rightNotEmpty
    rw [parallelMultiwayMergeImpl,merged,isLeft,isRight,← leftElements,← rightElements]
    exact ⟨_,rfl,lazyBinaryMerge_spec left.flatten right.flatten⟩

/-- The elements of the blocks are a sorted permutation of all elements, and another block size or memory limit does not change their order. -/
theorem parallelMultiwayMerge_spec (SizeGetter : T → Nat) (divide : Nat → Nat → Nat) (comparison : T → T → Bool)
    (order : IsStrictWeakOrder T (fun a b => comparison a b = true)) (rangeOfRanges : List (List T)) (notEmpty : rangeOfRanges ≠ [])
    (sorted : ∀ range ∈ rangeOfRanges,range.Pairwise (fun a b => comparison b a = false)) :
    ∃ elements : List T,elements.Pairwise (fun a b => comparison b a = false) ∧ elements.Perm rangeOfRanges.flatten ∧
      ∀ memoryLimit blocksize,∃ blocks,
        parallelMultiwayMerge SizeGetter divide memoryLimit rangeOfRanges comparison blocksize = some blocks ∧
        blocks.flatten = elements ∧ ∀ block ∈ blocks,block ≠ [] := by
  refine ⟨merged comparison rangeOfRanges,merged_sorted order sorted,merged_perm comparison rangeOfRanges,?_⟩
  intro memoryLimit blocksize
  rw [parallelMultiwayMerge,if_neg (by simpa using notEmpty)]
  exact parallelMultiwayMergeImpl_spec notEmpty

theorem less_strictWeakOrder : IsStrictWeakOrder Nat (fun a b => decide (a < b) = true) where
  irrefl a := by rw [decide_eq_true_eq]; exact Nat.lt_irrefl a
  trans a b c first second := by
    rw [decide_eq_true_eq] at first second ⊢
    exact Nat.lt_trans first second
  incomp_trans a b c first second := by
    simp only [decide_eq_true_eq] at first second ⊢
    omega

theorem parallelMultiwayMerge_spec_threeRanges :
    ∃ elements : List Nat,elements.Pairwise (fun a b => decide (b < a) = false) ∧ elements.Perm [[1,4],[],[2,2,3]].flatten ∧
      ∀ memoryLimit blocksize,∃ blocks,
        parallelMultiwayMerge (fun _ => 8) (fun size count => (size + count - 1) / count) memoryLimit [[1,4],[],[2,2,3]] (fun a b => decide (a < b))
          blocksize = some blocks ∧
        blocks.flatten = elements ∧ ∀ block ∈ blocks,block ≠ [] :=
  parallelMultiwayMerge_spec (fun _ => 8) (fun size count => (size + count - 1) / count) (fun a b => decide (a < b)) less_strictWeakOrder
    [[1,4],[],[2,2,3]] (by simp) (by simp)

end Tree

end Qlever.ParallelMultiwayMerge
