import Qlever.MergeTriples
import Qlever.Library.SortedSet

/-! The located triples of a block of quads, merged with and without the graph column. Without it, all quads of a triple have the same key.
-/
namespace Qlever.MergeTriples
open Qlever.Library List
variable {Id : Type} {numIndexColumns blockIndex : Nat}

/-- `deleteColumn` for the graph, which is the last column of a quad. -/
def deleteGraphColumn (quad : Fin (numIndexColumns + 1) → Id) : Fin numIndexColumns → Id := fun i => quad i.castSucc

section Definitions
variable [LinearOrder Id]

/-- `std::unique` on the rows of a block. -/
def removeDuplicates (rows : IdTable Id numIndexColumns) : IdTable Id numIndexColumns := unique (fun x y => decide (x = y)) rows

def mergeWithGraph [OrderBot Id] (ltpb : LocatedTriplesPerBlock Id) (blockIndex : Nat) (quads : IdTable Id (numIndexColumns + 1)) :
    Except MergeFailure (IdTable Id numIndexColumns) := do
  let rows ← mergeTriples ltpb blockIndex quads numIndexColumns true
  return removeDuplicates (rows.map deleteGraphColumn)

def mergeWithoutGraph [OrderBot Id] (ltpb : LocatedTriplesPerBlock Id) (blockIndex : Nat) (quads : IdTable Id (numIndexColumns + 1)) :
    Except MergeFailure (IdTable Id numIndexColumns) := do
  let rows ← mergeTriples ltpb blockIndex (quads.map deleteGraphColumn) numIndexColumns false
  return removeDuplicates rows

def tripleKey (numIndexColumns : Nat) {numColumns : Nat} (row : Fin numColumns → Id) : List Id := tieIdTableRow numIndexColumns false row

def KeptInSomeGraph (quads : IdTable Id (numIndexColumns + 1)) (locatedTriples : List (LocatedTriple Id)) (triple : List Id) : Prop :=
  (∃ located ∈ locatedTriples,located.insertOrDelete = true ∧ tieLocatedTriple numIndexColumns false located = triple) ∨
    ∃ quad ∈ quads,tripleKey numIndexColumns quad = triple ∧
      locatedTriples.countP (fun located => !located.insertOrDelete && decide (tieLocatedTriple numIndexColumns true located = quadKey numIndexColumns quad)) <
        quads.countP (fun other => quadKey numIndexColumns other = quadKey numIndexColumns quad)

/-- Fewer quads of the triple are deleted than the block has, or a quad of the triple is inserted after as many deletions as the block has quads of it. -/
def KeptByCounting (quads : IdTable Id (numIndexColumns + 1)) (locatedTriples : List (LocatedTriple Id)) (triple : List Id) : Prop :=
  KeepsKey (·.insertOrDelete) (quads.filter (fun quad => tripleKey numIndexColumns quad = triple)).length
    (locatedTriples.filter (fun located => tieLocatedTriple numIndexColumns false located = triple))

end Definitions

section Keys
variable [LinearOrder Id]

section
omit [LinearOrder Id]

theorem tripleKey_eq (row : Fin numIndexColumns → Id) : tripleKey numIndexColumns row = ofFn row :=
  take_of_length_le (by simp)

theorem tripleKey_injective : Function.Injective (tripleKey numIndexColumns : (Fin numIndexColumns → Id) → List Id) := by
  intro x y same
  rw [tripleKey_eq,tripleKey_eq] at same
  exact ofFn_injective same

theorem tripleKey_deleteGraphColumn (quad : Fin (numIndexColumns + 1) → Id) :
    tripleKey numIndexColumns (deleteGraphColumn quad) = tripleKey numIndexColumns quad := by
  have columns : ofFn quad = ofFn (deleteGraphColumn quad) ++ [quad (Fin.last numIndexColumns)] := by
    rw [ofFn_succ',concat_eq_append]
    rfl
  rw [tripleKey_eq,tripleKey,tieIdTableRow,columns]
  simp

theorem take_quadKey (quad : Fin (numIndexColumns + 1) → Id) : (quadKey numIndexColumns quad).take numIndexColumns = tripleKey numIndexColumns quad :=
  take_tieIdTableRow quad

end

theorem tripleKey_mono {first second : Fin (numIndexColumns + 1) → Id} (le : quadKey numIndexColumns first ≤ quadKey numIndexColumns second) :
    tripleKey numIndexColumns first ≤ tripleKey numIndexColumns second := by
  rw [← take_quadKey,← take_quadKey]
  exact take_mono le numIndexColumns

theorem isSame (x y : Fin numIndexColumns → Id) : decide (x = y) = true ↔ tripleKey numIndexColumns x = tripleKey numIndexColumns y := by
  rw [decide_eq_true_eq]
  exact tripleKey_injective.eq_iff.symm

theorem removeDuplicates_eq_iff {first second : IdTable Id numIndexColumns}
    (sortedFirst : first.Pairwise (fun x y => tripleKey numIndexColumns x ≤ tripleKey numIndexColumns y))
    (sortedSecond : second.Pairwise (fun x y => tripleKey numIndexColumns x ≤ tripleKey numIndexColumns y)) :
    removeDuplicates first = removeDuplicates second ↔
      ∀ triple,triple ∈ first.map (tripleKey numIndexColumns) ↔ triple ∈ second.map (tripleKey numIndexColumns) := by
  have mem : ∀ rows : IdTable Id numIndexColumns,∀ triple,
      triple ∈ (removeDuplicates rows).map (tripleKey numIndexColumns) ↔ triple ∈ rows.map (tripleKey numIndexColumns) :=
    fun rows triple => mem_keys_unique isSame rows triple
  constructor
  · intro same triple
    rw [← mem first,← mem second,same]
  · intro same
    apply map_injective_iff.mpr tripleKey_injective
    have strictFirst := pairwise_map.mpr (unique_strict isSame sortedFirst)
    have strictSecond := pairwise_map.mpr (unique_strict isSame sortedSecond)
    exact strictFirst.eq_of_mem_iff strictSecond (fun triple => ((mem first triple).trans (same triple)).trans (mem second triple).symm)

end Keys

section Merges
variable [LinearOrder Id] {ltpb : LocatedTriplesPerBlock Id} {quads : IdTable Id (numIndexColumns + 1)}
  (call : IsCall numIndexColumns ltpb blockIndex) (sorted : quads.Pairwise (fun x y => quadKey numIndexColumns x ≤ quadKey numIndexColumns y))
include call sorted

omit sorted in
theorem IsCall.sorted_triples : (locatedTriplesOfBlock ltpb blockIndex).Pairwise
    (fun x y => tieLocatedTriple numIndexColumns false x ≤ tieLocatedTriple numIndexColumns false y) := by
  refine call.increasing.imp ?_
  intro x y less
  rw [← take_tieLocatedTriple call.small,← take_tieLocatedTriple call.small]
  exact take_mono less.le numIndexColumns

omit sorted in
theorem keptInSomeGraph_of_keptByCounting {triple : List Id} (kept : KeptByCounting quads (locatedTriplesOfBlock ltpb blockIndex) triple) :
    KeptInSomeGraph quads (locatedTriplesOfBlock ltpb blockIndex) triple := by
  rcases kept with fewer | ⟨before,located,after,split,inserted,_⟩
  · by_contra notKept
    obtain ⟨_,allDeleted⟩ := not_or.mp notKept
    push Not at allDeleted
    -- All copies of all quads of the triple have a deletion.
    let rows := (quads.filter (fun quad => tripleKey numIndexColumns quad = triple)).map (quadKey numIndexColumns)
    let deletions := ((locatedTriplesOfBlock ltpb blockIndex).filter (fun located =>
      !located.insertOrDelete && decide (tieLocatedTriple numIndexColumns false located = triple))).map (tieLocatedTriple numIndexColumns true)
    have covered : ∀ key ∈ rows,rows.count key ≤ deletions.count key := by
      intro key member
      obtain ⟨quad,isQuad,rfl⟩ := List.mem_map.mp member
      obtain ⟨inBlock,same⟩ := mem_filter.mp isQuad
      have inRows : rows.count (quadKey numIndexColumns quad) ≤ quads.countP (fun other => quadKey numIndexColumns other = quadKey numIndexColumns quad) := by
        rw [List.count,countP_map]
        refine (filter_sublist.countP_le (p := _)).trans (le_of_eq ?_)
        congr! 2 with other
        exact Bool.eq_iff_iff.mpr (beq_iff_eq.trans decide_eq_true_iff.symm)
      refine (inRows.trans (allDeleted quad inBlock (of_decide_eq_true same))).trans ?_
      rw [List.count,countP_map,countP_filter]
      apply countP_mono_left
      intro located _ isDeletion
      obtain ⟨isDeleted,sameQuad⟩ := (Bool.and_eq_true _ _).mp isDeletion
      have sameTriple : tieLocatedTriple numIndexColumns false located = triple := by
        rw [← take_tieLocatedTriple call.small,of_decide_eq_true sameQuad,take_quadKey]
        exact of_decide_eq_true same
      simp [isDeleted,sameTriple,of_decide_eq_true sameQuad]
    have bound := (subperm_ext_iff.mpr covered).length_le
    rw [length_map,length_map,← countP_eq_length_filter (l := locatedTriplesOfBlock ltpb blockIndex)] at bound
    rw [countP_filter] at fewer
    exact absurd fewer (not_lt.mpr bound)
  · have member : located ∈ (locatedTriplesOfBlock ltpb blockIndex).filter (fun located => tieLocatedTriple numIndexColumns false located = triple) := split ▸ by simp
    exact Or.inl ⟨located,(mem_filter.mp member).1,inserted,of_decide_eq_true (mem_filter.mp member).2⟩

section Rows
variable [OrderBot Id]

omit call sorted in
theorem sorted_mergedRows (call : IsCall numIndexColumns ltpb blockIndex) {numColumns : Nat} {includeGraphColumn : Bool} {rows : IdTable Id numColumns}
    (columns : numIndexColumns + includeGraphColumn.toNat ≤ numColumns)
    (sortedRows : rows.Pairwise (fun x y => tieIdTableRow numIndexColumns includeGraphColumn x ≤ tieIdTableRow numIndexColumns includeGraphColumn y))
    (sortedTriples : (locatedTriplesOfBlock ltpb blockIndex).Pairwise
      (fun x y => tieLocatedTriple numIndexColumns includeGraphColumn x ≤ tieLocatedTriple numIndexColumns includeGraphColumn y)) :
    (mergedRows numIndexColumns includeGraphColumn rows (locatedTriplesOfBlock ltpb blockIndex)).Pairwise
      (fun x y => tieIdTableRow numIndexColumns includeGraphColumn x ≤ tieIdTableRow numIndexColumns includeGraphColumn y) :=
  applyUpdates_pairwise (fun located => tieIdTableRow_rowOfLocatedTriple call.positive call.small includeGraphColumn columns located)
    (fun _ _ => le_of_lt) (fun _ _ _ less le => (less.trans_le le).le) sortedRows sortedTriples

omit call [OrderBot Id] in
theorem sorted_deleteGraphColumn : (quads.map deleteGraphColumn).Pairwise (fun x y => tripleKey numIndexColumns x ≤ tripleKey numIndexColumns y) := by
  apply pairwise_map.mpr
  refine sorted.imp ?_
  intro x y le
  rw [tripleKey_deleteGraphColumn,tripleKey_deleteGraphColumn]
  exact tripleKey_mono le

theorem mem_mergedWithoutGraph (triple : List Id) :
    triple ∈ (mergedRows numIndexColumns false (quads.map deleteGraphColumn) (locatedTriplesOfBlock ltpb blockIndex)).map (tripleKey numIndexColumns) ↔
      KeptByCounting quads (locatedTriplesOfBlock ltpb blockIndex) triple := by
  have keyOfRow : ∀ located,tieIdTableRow numIndexColumns false (rowOfLocatedTriple numIndexColumns false located : Fin numIndexColumns → Id) =
      tieLocatedTriple numIndexColumns false located :=
    fun located => tieIdTableRow_rowOfLocatedTriple call.positive call.small false le_rfl located
  have mem : triple ∈ (mergedRows numIndexColumns false (quads.map deleteGraphColumn) (locatedTriplesOfBlock ltpb blockIndex)).map
      (tripleKey numIndexColumns) ↔ _ := mem_keys_applyUpdates keyOfRow (sorted_deleteGraphColumn sorted) call.sorted_triples triple
  rw [mem,KeptByCounting,filter_map,length_map]
  congr! 4 with quad
  rw [← tripleKey_deleteGraphColumn]
  exact decide_eq_decide.mpr Iff.rfl

theorem mem_mergedWithGraph (triple : List Id) :
    triple ∈ ((mergedRows numIndexColumns true quads (locatedTriplesOfBlock ltpb blockIndex)).map deleteGraphColumn).map (tripleKey numIndexColumns) ↔
      KeptInSomeGraph quads (locatedTriplesOfBlock ltpb blockIndex) triple := by
  have keyOfRow : ∀ located,quadKey numIndexColumns (rowOfLocatedTriple numIndexColumns true located : Fin (numIndexColumns + 1) → Id) =
      tieLocatedTriple numIndexColumns true located :=
    fun located => tieIdTableRow_rowOfLocatedTriple call.positive call.small true le_rfl located
  have mem : ∀ key,key ∈ (mergedRows numIndexColumns true quads (locatedTriplesOfBlock ltpb blockIndex)).map (quadKey numIndexColumns) ↔
      (∃ located ∈ locatedTriplesOfBlock ltpb blockIndex,located.insertOrDelete = true ∧ tieLocatedTriple numIndexColumns true located = key) ∨
        (locatedTriplesOfBlock ltpb blockIndex).countP
          (fun located => !located.insertOrDelete && decide (tieLocatedTriple numIndexColumns true located = key)) <
            quads.countP (fun quad => quadKey numIndexColumns quad = key) := by
    intro key
    have mem : key ∈ (mergedRows numIndexColumns true quads (locatedTriplesOfBlock ltpb blockIndex)).map (quadKey numIndexColumns) ↔ _ :=
      mem_keys_applyUpdates keyOfRow sorted (call.increasing.imp le_of_lt) key
    rw [mem,keepsKey_iff call.increasing,← countP_eq_length_filter]
    congr!
  have keys : triple ∈ ((mergedRows numIndexColumns true quads (locatedTriplesOfBlock ltpb blockIndex)).map deleteGraphColumn).map (tripleKey numIndexColumns) ↔
      ∃ key ∈ (mergedRows numIndexColumns true quads (locatedTriplesOfBlock ltpb blockIndex)).map (quadKey numIndexColumns),key.take numIndexColumns = triple := by
    simp only [map_map,List.mem_map,Function.comp_apply,tripleKey_deleteGraphColumn,exists_exists_and_eq_and,take_quadKey]
  rw [keys]
  constructor
  · rintro ⟨key,isKey,rfl⟩
    rcases (mem key).mp isKey with ⟨located,isLocated,inserted,rfl⟩ | fewer
    · exact Or.inl ⟨located,isLocated,inserted,(take_tieLocatedTriple call.small located).symm⟩
    · obtain ⟨quad,isQuad,same⟩ := countP_pos_iff.mp (Nat.zero_lt_of_lt fewer)
      obtain rfl := of_decide_eq_true same
      exact Or.inr ⟨quad,isQuad,(take_quadKey quad).symm,fewer⟩
  · rintro (⟨located,isLocated,inserted,rfl⟩ | ⟨quad,isQuad,rfl,fewer⟩)
    · exact ⟨_,(mem _).mpr (Or.inl ⟨located,isLocated,inserted,rfl⟩),take_tieLocatedTriple call.small located⟩
    · exact ⟨_,(mem _).mpr (Or.inr fewer),take_quadKey quad⟩

/-- The merge without the graph column yields the visible triples if and only if counting keeps every triple that some graph contains. -/
theorem mergeWithoutGraph_eq_iff : mergeWithoutGraph ltpb blockIndex quads = mergeWithGraph ltpb blockIndex quads ↔
    ∀ triple,KeptInSomeGraph quads (locatedTriplesOfBlock ltpb blockIndex) triple →
      KeptByCounting quads (locatedTriplesOfBlock ltpb blockIndex) triple := by
  have graphMerge := call.mergeTriples_eq true le_rfl quads
  have tripleMerge := call.mergeTriples_eq false le_rfl (quads.map deleteGraphColumn)
  have withGraph : mergeWithGraph ltpb blockIndex quads =
      .ok (removeDuplicates ((mergedRows numIndexColumns true quads (locatedTriplesOfBlock ltpb blockIndex)).map deleteGraphColumn)) := by
    rw [mergeWithGraph,graphMerge]
    rfl
  have withoutGraph : mergeWithoutGraph ltpb blockIndex quads =
      .ok (removeDuplicates (mergedRows numIndexColumns false (quads.map deleteGraphColumn) (locatedTriplesOfBlock ltpb blockIndex))) := by
    rw [mergeWithoutGraph,tripleMerge]
    rfl
  rw [withGraph,withoutGraph,Except.ok.injEq,removeDuplicates_eq_iff]
  · simp only [mem_mergedWithoutGraph call sorted,mem_mergedWithGraph call sorted]
    exact forall_congr' (fun triple => ⟨Iff.mpr,fun enough => ⟨keptInSomeGraph_of_keptByCounting call,enough⟩⟩)
  · exact sorted_mergedRows call le_rfl (sorted_deleteGraphColumn sorted) call.sorted_triples
  · exact sorted_deleteGraphColumn (sorted_mergedRows call le_rfl sorted (call.increasing.imp le_of_lt))

end Rows
end Merges

def quadsOfBlock : IdTable Nat 4 := [![5,6,7,11]]

def moveToGraph : LocatedTriplesPerBlock Nat where
  map := fun blockIndex => if blockIndex = 0 then [⟨0,⟨0,⟨5,6,7,10⟩,true⟩⟩,⟨1,⟨0,⟨5,6,7,11⟩,false⟩⟩] else []

theorem moveToGraph_isCall : IsCall 3 moveToGraph 0 :=
  ⟨by decide,by decide,rfl,by simp [moveToGraph,KeyedSet.Sorted,Node.triple,IdTriple.lt_iff],by decide⟩

theorem mergeWithoutGraph_eq_iff_moveToGraph : mergeWithoutGraph moveToGraph 0 quadsOfBlock = mergeWithGraph moveToGraph 0 quadsOfBlock ↔
    ∀ triple,KeptInSomeGraph quadsOfBlock (locatedTriplesOfBlock moveToGraph 0) triple →
      KeptByCounting quadsOfBlock (locatedTriplesOfBlock moveToGraph 0) triple :=
  mergeWithoutGraph_eq_iff moveToGraph_isCall (pairwise_singleton _ _)

/-- Without the graph column the moved triple vanishes. -/
theorem mergeWithoutGraph_loses_moved : IsCall 3 moveToGraph 0 ∧ quadsOfBlock.Pairwise (fun x y => quadKey 3 x < quadKey 3 y) ∧
    mergeWithGraph moveToGraph 0 quadsOfBlock = .ok [![5,6,7]] ∧ mergeWithoutGraph moveToGraph 0 quadsOfBlock = .ok [] := by
  refine ⟨moveToGraph_isCall,pairwise_singleton _ _,?_,?_⟩
  · rw [mergeWithGraph,moveToGraph_isCall.mergeTriples_eq true le_rfl]
    simp [mergedRows,applyUpdates,quadsOfBlock,locatedTriplesOfBlock,moveToGraph,tieIdTableRow,tieLocatedTriple,ids,cons_lt_cons_iff,
      removeDuplicates,unique]
    decide
  · -- The insertion meets the row and is dropped, and then the deletion takes the row.
    have projected : quadsOfBlock.map deleteGraphColumn = [![5,6,7]] := by decide
    rw [mergeWithoutGraph,projected,moveToGraph_isCall.mergeTriples_eq false le_rfl]
    simp [mergedRows,applyUpdates,locatedTriplesOfBlock,moveToGraph,tieIdTableRow,tieLocatedTriple,ids,removeDuplicates,unique]
end Qlever.MergeTriples
