import Qlever.CompressedExternalIdTable
import Qlever.Distinct

/-! The triples from which a permutation is built: the external sorter yields them in blocks, and `uniqueBlockView` removes the duplicates.
-/
namespace Qlever.Pipelines
open List Distinct
variable {Id : Type} {n : Nat} {keepIndices : List (Fin n)}

section Sorted
variable [DecidableEq Id] {less : Row Id n → Row Id n → Prop} (trans : ∀ a b c,less a b → less b c → less a c) {rows : List (Row Id n)}
include trans

theorem withoutRepeats_some_sorted (row : Row Id n) (sorted : (row :: rows).Pairwise (fun a b => matchesRow keepIndices a b = true ∨ less a b)) :
    (row :: withoutRepeats keepIndices (some row) rows).Pairwise less ∧ row :: withoutRepeats keepIndices (some row) rows ⊆ row :: rows ∧
      ∀ other ∈ row :: rows,∃ kept ∈ row :: withoutRepeats keepIndices (some row) rows,matchesRow keepIndices kept other = true := by
  induction rows generalizing row with
  | nil => exact ⟨pairwise_singleton _ _,Subset.refl _,fun other isOther => ⟨other,isOther,matchesRow_refl other⟩⟩
  | cons next rows ih =>
    rw [withoutRepeats,Option.any_some]
    split
    next repeats =>
      obtain ⟨strict,subset,covered⟩ := ih row (sorted.sublist (cons_sublist_cons.mpr (sublist_cons_self next rows)))
      refine ⟨strict,Subset.trans subset (cons_subset_cons row (subset_cons_self next rows)),?_⟩
      simp only [forall_mem_cons] at covered ⊢
      exact ⟨covered.1,⟨row,mem_cons_self,repeats⟩,covered.2⟩
    next new =>
      obtain ⟨first,rest⟩ := pairwise_cons.mp sorted
      obtain ⟨strict,subset,covered⟩ := ih next rest
      have below : less row next := (first next mem_cons_self).resolve_left new
      refine ⟨pairwise_cons.mpr ⟨forall_mem_cons.mpr ⟨below,fun kept isKept => ?_⟩,strict⟩,cons_subset_cons row subset,
        forall_mem_cons.mpr ⟨⟨row,mem_cons_self,matchesRow_refl row⟩,fun other isOther => ?_⟩⟩
      · exact trans _ _ _ below ((pairwise_cons.mp strict).1 kept isKept)
      · obtain ⟨kept,isKept,same⟩ := covered other isOther
        exact ⟨kept,mem_cons_of_mem row isKept,same⟩

/-- Of sorted rows, one is kept for all that agree on the columns. -/
theorem withoutRepeats_sorted (sorted : rows.Pairwise (fun a b => matchesRow keepIndices a b = true ∨ less a b)) :
    (withoutRepeats keepIndices none rows).Pairwise less ∧ withoutRepeats keepIndices none rows ⊆ rows ∧
      ∀ other ∈ rows,∃ kept ∈ withoutRepeats keepIndices none rows,matchesRow keepIndices kept other = true := by
  cases rows with
  | nil => exact ⟨.nil,Subset.refl _,fun _ isOther => absurd isOther not_mem_nil⟩
  | cons row rows => exact withoutRepeats_some_sorted trans row sorted

end Sorted

section Unique
open CompressedExternalIdTable
variable [DecidableEq Id]

/-- Two elements are equal if they agree on all columns. -/
def uniqueBlockView (lastValueFromPreviousBlock : Option (Distinct.Row Id n)) : List (List (Distinct.Row Id n)) → List (List (Distinct.Row Id n))
  | [] => []
  | block :: view =>
    if block.isEmpty then uniqueBlockView lastValueFromPreviousBlock view
    else
      let beg := block.findIdx (fun el => lastValueFromPreviousBlock.all (fun p => !matchesRow (finRange n) el p))
      withoutRepeats (finRange n) none (block.drop beg) :: uniqueBlockView block.getLast? view

theorem flatten_uniqueBlockView (previous : Option (Distinct.Row Id n)) (view : List (List (Distinct.Row Id n))) :
    (uniqueBlockView previous view).flatten = withoutRepeats (finRange n) previous view.flatten := by
  induction view generalizing previous with
  | nil => rfl
  | cons block view ih =>
    rw [uniqueBlockView,flatten_cons]
    cases block with
    | nil => exact ih previous
    | cons row block =>
      obtain ⟨last,isLast⟩ := Option.isSome_iff_exists.mp (getLast?_isSome.mpr (cons_ne_nil row block))
      obtain ⟨kept,isKept⟩ : ∃ kept,(withoutRepeats (finRange n) previous (row :: block)).getLast?.or previous = some kept := by
        cases previous with
        | some p => cases (withoutRepeats (finRange n) (some p) (row :: block)).getLast? <;> exact ⟨_,rfl⟩
        | none =>
          rw [withoutRepeats,Option.any_none,if_neg Bool.false_ne_true,getLast?_cons]
          exact ⟨_,rfl⟩
      rw [isEmpty_cons,if_neg Bool.false_ne_true,flatten_cons,ih,← withoutRepeats_drop_findIdx,withoutRepeats_append,isLast,isKept,
        withoutRepeats_congr (matchesRow_getLast isLast isKept)]

/-- The blocks from which a permutation is built contain each of the pushed triples once, in the order of the comparator, which compares all
columns. -/
theorem uniqueBlockView_sorted [NeZero n] [Inhabited Id] (settings : Settings Id n) (lawful : settings.Lawful)
    (total : ∀ a b,settings.comparator_ a b = false → settings.comparator_ b a = false → a = b)
    (large : sizeofId ≤ settings.blockSizeUncompressed_) (moveResultOnMerge : Bool) (requests : List (Request Id n))
    (fits : settings.rowsPerBlock ≤ (requests.flatMap Request.rows).length → settings.MergeFits (requests.flatMap Request.rows))
    (blocksize : Option Nat) (positive : ∀ size,blocksize = some size → 0 < size) :
    ∃ sorter blocks last,pushAll settings (.new settings moveResultOnMerge) requests = .ok sorter ∧
      sorter.getSortedBlocks settings blocksize = .ok (blocks,last) ∧
      (uniqueBlockView none blocks).flatten.Pairwise (fun a b => settings.comparator_ a b = true) ∧
      ∀ triple,triple ∈ (uniqueBlockView none blocks).flatten ↔ triple ∈ requests.flatMap Request.rows := by
  have large' : 0 < settings.blockSizeUncompressed_ / sizeofId := Nat.div_pos large (by decide)
  obtain ⟨sorter,_,pushed,pushing,-⟩ := pushes_pushAll lawful large' requests _ _ _ (pushing_new settings moveResultOnMerge)
  rw [nil_append] at pushing
  obtain ⟨result,perm,sorted,extracts⟩ := pushing.extract lawful large' fits
  obtain ⟨blocks,last,extracted,output,-⟩ := extracts blocksize positive
  have matches_iff : ∀ a b : Distinct.Row Id n,matchesRow (finRange n) a b = true ↔ a = b := by simp [matchesRow_iff,funext_iff]
  obtain ⟨strict,subset,covered⟩ := withoutRepeats_sorted lawful.order.trans
    (sorted.imp (fun inOrder => or_iff_not_imp_right.mpr (fun notLess => (matches_iff _ _).mpr (total _ _ (Bool.eq_false_of_not_eq_true notLess) inOrder))))
  rw [← output.flatten,← flatten_uniqueBlockView] at strict subset covered
  refine ⟨sorter,blocks,last,pushed,extracted,strict,fun triple => ?_⟩
  rw [← perm.mem_iff,← output.flatten]
  refine ⟨fun isKept => subset isKept,fun isTriple => ?_⟩
  obtain ⟨kept,isKept,same⟩ := covered triple isTriple
  exact (matches_iff kept triple).mp same ▸ isKept

theorem uniqueBlockView_sorted_twoOnes :
    ∃ sorter blocks last,pushAll (oneColumnSettings 32 16 true) (.new (oneColumnSettings 32 16 true) true) [.pushBlock (rowsOf [3,1,2,1])] = .ok sorter ∧
      sorter.getSortedBlocks (oneColumnSettings 32 16 true) (some 1) = .ok (blocks,last) ∧
      (uniqueBlockView none blocks).flatten.Pairwise (fun a b => (oneColumnSettings 32 16 true).comparator_ a b = true) ∧
      ∀ triple,triple ∈ (uniqueBlockView none blocks).flatten ↔ triple ∈ [Request.pushBlock (rowsOf [3,1,2,1])].flatMap Request.rows :=
  uniqueBlockView_sorted (oneColumnSettings 32 16 true) (oneColumnSettings_lawful 32 16 true)
    (fun a b first second => funext (Fin.forall_fin_one.mpr (le_antisymm (not_lt.mp (of_decide_eq_false second)) (not_lt.mp (of_decide_eq_false first)))))
    (by decide) true _ (fun _ => ⟨5,by decide +kernel⟩) (some 1) (by simp)

end Unique

end Qlever.Pipelines
