import Qlever.HashMapRuns

/-! The merge of the table from the hash map with the groups of the remaining rows, and when the result is the table of all
groups.
-/
namespace Qlever.GroupBy
open List
variable {Id κ : Type} [LinearOrder Id] {ops : IdOperations Id κ}

/-! ### The merge -/

inductive Merges (ops : IdOperations Id κ) (width : Nat) : IdTable Id → IdTable Id → IdTable Id → Prop
  | leftNil (tail : IdTable Id) : Merges ops width [] tail tail
  | rightNil (row : List Id) (rest : IdTable Id) : Merges ops width (row::rest) [] (row::rest)
  | both (row other : List Id) (rest tail out : IdTable Id) (same : row.take width = other.take width) (next : Merges ops width rest tail out) :
      Merges ops width (row::rest) (other::tail) (addAggregates ops width row other::out)
  | takeLeft (row other : List Id) (rest tail out : IdTable Id) (less : row.take width < other.take width) (next : Merges ops width rest (other::tail) out) :
      Merges ops width (row::rest) (other::tail) (row::out)
  | takeRight (row other : List Id) (rest tail out : IdTable Id) (greater : other.take width < row.take width) (next : Merges ops width (row::rest) tail out) :
      Merges ops width (row::rest) (other::tail) (other::out)

theorem mergeRows_merges (width : Nat) (partialResult tail : IdTable Id) : Merges ops width partialResult tail (mergeRows ops width partialResult tail) := by
  induction partialResult generalizing tail with
  | nil => exact .leftNil tail
  | cons row rest ih =>
    rw [mergeRows]
    induction tail with
    | nil => exact .rightNil row rest
    | cons other tail ihTail =>
      rw [mergeRows.mergeTail]
      split
      · exact .both row other rest tail _ ‹_› (ih tail)
      · split
        · exact .takeLeft row other rest tail _ ‹_› (ih (other::tail))
        · exact .takeRight row other rest tail _ (lt_of_le_of_ne (not_lt.mp ‹_›) (Ne.symm ‹_›)) ihTail

theorem mergeRows_nil (width : Nat) (partialResult : IdTable Id) : mergeRows ops width partialResult [] = partialResult := by
  cases partialResult <;> rfl

section
variable {width : Nat} {partialResult tail out : IdTable Id} (merges : Merges ops width partialResult tail out)
include merges

theorem Merges.perm_or_both :
    out.Perm (partialResult ++ tail) ∨
      ∃ row ∈ partialResult, ∃ other ∈ tail, row.take width = other.take width ∧ addAggregates ops width row other ∈ out := by
  induction merges with
  | leftNil tail => exact .inl (List.Perm.refl _)
  | rightNil row rest => exact .inl (by simp)
  | both row other rest tail out same next ih => exact .inr ⟨row,mem_cons_self,other,mem_cons_self,same,mem_cons_self⟩
  | takeLeft row other rest tail out less next ih =>
    rcases ih with perm | ⟨row',member,other',member',same,inside⟩
    · exact .inl (perm.cons row)
    · exact .inr ⟨row',mem_cons_of_mem _ member,other',member',same,mem_cons_of_mem _ inside⟩
  | takeRight row other rest tail out greater next ih =>
    rcases ih with perm | ⟨row',member,other',member',same,inside⟩
    · exact .inl ((perm.cons other).trans perm_middle.symm)
    · exact .inr ⟨row',member,other',mem_cons_of_mem _ member',same,mem_cons_of_mem _ inside⟩

section
variable (disjoint : ∀ row ∈ partialResult, ∀ other ∈ tail, row.take width ≠ other.take width)
include disjoint

theorem Merges.perm : out.Perm (partialResult ++ tail) := by
  rcases merges.perm_or_both with perm | ⟨row,member,other,member',same,_⟩
  · exact perm
  · exact absurd same (disjoint row member other member')

theorem Merges.sorted (left : (partialResult.map (List.take width)).Pairwise (· < ·)) (right : (tail.map (List.take width)).Pairwise (· < ·)) :
    (out.map (List.take width)).Pairwise (· < ·) := by
  induction merges with
  | leftNil tail => exact right
  | rightNil row rest => exact left
  | both row other rest tail out same next ih => exact absurd same (disjoint row mem_cons_self other mem_cons_self)
  | takeLeft row other rest tail out less next ih =>
    have disjoint' : ∀ row ∈ rest, ∀ other' ∈ other::tail, row.take width ≠ other'.take width := fun row member => disjoint row (mem_cons_of_mem _ member)
    obtain ⟨below,left'⟩ := pairwise_cons.mp left
    obtain ⟨below',_⟩ := pairwise_cons.mp right
    rw [map_cons,pairwise_cons]
    refine ⟨fun key member => ?_,ih disjoint' left' right⟩
    have source := ((next.perm disjoint').map (List.take width)).mem_iff.mp member
    rw [map_append,map_cons,mem_append,mem_cons] at source
    rcases source with inside | rfl | inside
    · exact below key inside
    · exact less
    · exact less.trans (below' key inside)
  | takeRight row other rest tail out greater next ih =>
    have disjoint' : ∀ row' ∈ row::rest, ∀ other ∈ tail, row'.take width ≠ other.take width :=
      fun row' member other' member' => disjoint row' member other' (mem_cons_of_mem _ member')
    obtain ⟨below,_⟩ := pairwise_cons.mp left
    obtain ⟨below',right'⟩ := pairwise_cons.mp right
    rw [map_cons,pairwise_cons]
    refine ⟨fun key member => ?_,ih disjoint' left right'⟩
    have source := ((next.perm disjoint').map (List.take width)).mem_iff.mp member
    rw [map_append,map_cons,cons_append,mem_cons,mem_append] at source
    rcases source with rfl | inside | inside
    · exact greater
    · exact greater.trans (below key inside)
    · exact below' key inside

end

theorem Merges.tail_sublist (left : ∀ row ∈ partialResult, row.length = width) (right : ∀ row ∈ tail, row.length = width) : tail.Sublist out := by
  induction merges with
  | leftNil tail => exact List.Sublist.refl _
  | rightNil row rest => exact nil_sublist _
  | both row other rest tail out same next ih =>
    have rowWidth := left row mem_cons_self
    have otherWidth := right other mem_cons_self
    have merged : addAggregates ops width row other = other := by
      rw [addAggregates,same,drop_eq_nil_of_le rowWidth.le,zipWith_nil_left,append_nil,take_of_length_le otherWidth.le]
    rw [merged]
    exact (ih (forall_mem_cons.mp left).2 (forall_mem_cons.mp right).2).cons_cons other
  | takeLeft row other rest tail out less next ih => exact (ih (forall_mem_cons.mp left).2 right).cons row
  | takeRight row other rest tail out greater next ih => exact (ih left (forall_mem_cons.mp right).2).cons_cons other

end

/-! ### The sort by columns -/

section SortByColumns
variable [Inhabited Id]

def columnValues (columns : List Nat) (row : List Id) : List Id := columns.map (fun column => row.getD column default)

variable (columns : List Nat)

theorem compareColumns_compares (left right : List Id) (order : Ordering) (compared : compareColumns columns left right = some order) :
    order.Compares (columnValues columns left) (columnValues columns right) := by
  induction columns with
  | nil =>
    obtain rfl := Option.some.inj compared
    rfl
  | cons column columns ih =>
    rw [compareColumns] at compared
    cases first : left[column]? with
    | none => simp [first] at compared
    | some a =>
      cases second : right[column]? with
      | none => simp [first,second] at compared
      | some b =>
        simp only [first,second] at compared
        have values : columnValues (column::columns) left = a::columnValues columns left := by
          simp [columnValues,getD_eq_getElem?_getD,first]
        have values' : columnValues (column::columns) right = b::columnValues columns right := by
          simp [columnValues,getD_eq_getElem?_getD,second]
        rw [values,values']
        split at compared
        · rename_i less
          obtain rfl := Option.some.inj compared
          exact cons_lt_cons_iff.mpr (.inl less)
        · split at compared
          · rename_i greater
            obtain rfl := Option.some.inj compared
            exact cons_lt_cons_iff.mpr (.inl greater)
          · obtain rfl : a = b := le_antisymm (not_lt.mp ‹_›) (not_lt.mp ‹_›)
            have rest := ih compared
            cases order with
            | lt | gt => exact cons_lt_cons_iff.mpr (.inr ⟨rfl,rest⟩)
            | eq => exact congrArg (List.cons a) rest

omit [Inhabited Id] in
theorem compareColumns_append (left right more others : List Id) (order : Ordering)
    (compared : compareColumns columns left right = some order) : compareColumns columns (left ++ more) (right ++ others) = some order := by
  induction columns with
  | nil => exact compared
  | cons column columns ih =>
    rw [compareColumns] at compared ⊢
    cases first : left[column]? with
    | none => simp [first] at compared
    | some a =>
      cases second : right[column]? with
      | none => simp [first,second] at compared
      | some b =>
        obtain ⟨inside,_⟩ := List.getElem?_eq_some_iff.mp first
        obtain ⟨inside',_⟩ := List.getElem?_eq_some_iff.mp second
        simp only [first,second] at compared
        rw [List.getElem?_append_left inside,List.getElem?_append_left inside',first,second]
        simp only
        split at compared
        · rwa [if_pos ‹_›]
        · rw [if_neg ‹_›]
          split at compared
          · rwa [if_pos ‹_›]
          · rw [if_neg ‹_›]
            exact ih compared

omit [Inhabited Id] in
theorem compareColumns_swap (left right : List Id) :
    compareColumns columns right left = (compareColumns columns left right).map Ordering.swap := by
  induction columns with
  | nil => rfl
  | cons column columns ih =>
    simp only [compareColumns]
    cases left[column]? with
    | none => cases right[column]? <;> rfl
    | some a =>
      cases right[column]? with
      | none => rfl
      | some b =>
        simp only
        rcases lt_trichotomy a b with less | rfl | greater
        · simp [less,less.not_gt]
        · simpa using ih
        · simp [greater,greater.not_gt]

theorem sortByColumns_values (table sorted : IdTable Id) (result : sortByColumns columns table = some sorted) :
    sorted.Perm table ∧ (sorted.map (columnValues columns)).Pairwise (· ≤ ·) := by
  unfold sortByColumns at result
  split at result
  · rename_i specified
    obtain rfl := Option.some.inj result
    refine ⟨perm_insertionSort _ _,?_⟩
    have agreesOf : ∀ (left right : List Id) order, compareColumns columns left right = some order →
        (compareColumns columns left right ≠ some .gt ↔ columnValues columns left ≤ columnValues columns right) := by
      intro left right order compared
      rw [compared,← (compareColumns_compares columns left right order compared).ne_gt]
      simp
    have agrees : ∀ left ∈ table, ∀ right ∈ table, compareColumns columns left right ≠ some .gt ↔ columnValues columns left ≤ columnValues columns right := by
      refine fun left member right member' => List.Pairwise.forall_of_forall_of_flip
        (R := fun left right => compareColumns columns left right ≠ some .gt ↔ columnValues columns left ≤ columnValues columns right) ?_ ?_ ?_ member member'
      · intro row _
        cases compared : compareColumns columns row row with
        | none => simp
        | some order => exact compared ▸ agreesOf row row order compared
      · refine specified.imp ?_
        intro left right ⟨defined,_⟩
        obtain ⟨order,compared⟩ := Option.ne_none_iff_exists'.mp defined
        exact agreesOf left right order compared
      · refine specified.imp ?_
        intro left right ⟨defined,_⟩
        obtain ⟨order,compared⟩ := Option.ne_none_iff_exists'.mp defined
        exact agreesOf right left order.swap (by rw [compareColumns_swap,compared]; rfl)
    rw [map_insertionSort _ (· ≤ ·) (columnValues columns) table agrees]
    exact pairwise_insertionSort _ _
  · cases result

omit [Inhabited Id] in
theorem sortByColumns_keys (width : Nat) (table : IdTable Id) (distinct : (table.map (List.take width)).Nodup)
    (ordered : ∀ row ∈ table, ∀ other ∈ table, row.take width < other.take width → compareColumns columns row other = some .lt) :
    ∃ sorted, sortByColumns columns table = some sorted ∧ sorted.Perm table ∧ (sorted.map (List.take width)).Pairwise (· < ·) := by
  have compared : ∀ row ∈ table, ∀ other ∈ table, row.take width ≠ other.take width →
      compareColumns columns row other = some (if row.take width < other.take width then .lt else .gt) := by
    intro row member other member' differs
    rcases lt_or_gt_of_ne differs with less | greater
    · rw [if_pos less]
      exact ordered row member other member' less
    · rw [if_neg greater.not_gt,compareColumns_swap,ordered other member' row member greater]
      rfl
  have specified : table.Pairwise (fun left right => compareColumns columns left right ≠ none ∧ (left = right ∨ compareColumns columns left right ≠ some .eq)) := by
    refine (pairwise_map.mp distinct).imp_of_mem ?_
    intro left right member member' differs
    rw [compared left member right member' differs]
    split <;> simp
  refine ⟨_,if_pos specified,perm_insertionSort _ _,?_⟩
  have agrees : ∀ left ∈ table, ∀ right ∈ table, compareColumns columns left right ≠ some .gt ↔ left.take width ≤ right.take width := by
    intro left member right member'
    by_cases same : left.take width = right.take width
    · obtain rfl := inj_on_of_nodup_map distinct member member' same
      refine iff_of_true ?_ le_rfl
      intro greater
      have swapped := compareColumns_swap columns left left
      rw [greater] at swapped
      cases swapped
    · rw [compared left member right member' same]
      rcases lt_or_gt_of_ne same with less | greater
      · simp [less,less.le]
      · simp [greater.not_gt,greater]
  have nodup : ((table.map (List.take width)).insertionSort (· ≤ ·)).Nodup := (perm_insertionSort _ _).nodup_iff.mpr distinct
  rw [map_insertionSort _ (· ≤ ·) (List.take width) table agrees]
  exact (pairwise_insertionSort (· ≤ ·) _).imp₂ (fun _ _ => lt_of_le_of_ne) nodup

end SortByColumns

/-! ### The tail -/

section Tail
variable [Inhabited Id] [LinearOrder κ] {columns : List Nat} {aggregates : List (Aggregate Id)}

/-- The remaining rows have other keys than the rows in the hash map, the rows of each of their keys are adjacent, and the values
of the group in the columns `columns` of the output give the order of the keys. -/
structure TailMerges (columns : List Nat) (added tail : IdTable Id) : Prop where
  disjoint : ∀ row ∈ added, ∀ other ∈ tail, keyOf columns row ≠ keyOf columns other
  adjacent : (groupKeys columns tail).Nodup
  ordered : ∀ row ∈ tail, ∀ other ∈ tail, keyOf columns row < keyOf columns other → compareColumns columns (keyOf columns row) (keyOf columns other) = some .lt

theorem aggregateTailBlocks_eq (aliases : List (Alias Id)) (tailBlocks : List (IdTable Id)) (grouped : columns ≠ []) :
    aggregateTailBlocks columns aliases tailBlocks = (groups columns tailBlocks.flatten).map (groupRow columns aliases) := by
  unfold aggregateTailBlocks
  split
  · rename_i empty
    rw [List.isEmpty_iff.mp empty]
    rfl
  · exact doGroupBy_eq_groups aliases tailBlocks.flatten grouped

theorem groupRows_keys (columns : List Nat) (aliases : List (Alias Id)) (tail : IdTable Id) :
    ((groups columns tail).map (groupRow columns aliases)).map (List.take columns.length) = groupKeys columns tail := by
  rw [map_map]
  exact map_congr_left (fun group _ => groupRow_take aliases group)

theorem sortedTail_isGroupTable
    (ops : IdOperations Id κ) (columns : List Nat) (aggregates : List (Aggregate Id)) (tail : IdTable Id) (adjacent : (groupKeys columns tail).Nodup)
    (ordered : ∀ row ∈ tail, ∀ other ∈ tail, keyOf columns row < keyOf columns other → compareColumns columns (keyOf columns row) (keyOf columns other) = some .lt) :
    ∃ sorted, sortByColumns columns ((groups columns tail).map (groupRow columns (aggregates.map (·.toAlias ops)))) = some sorted ∧
      sorted.Perm ((groups columns tail).map (groupRow columns (aggregates.map (·.toAlias ops)))) ∧ IsGroupTable ops columns aggregates tail sorted := by
  let aliases := aggregates.map (fun aggregate : Aggregate Id => aggregate.toAlias ops)
  have keys := groupRows_keys columns aliases tail
  obtain ⟨sorted,result,perm,strict⟩ := sortByColumns_keys columns columns.length ((groups columns tail).map (groupRow columns aliases)) (keys ▸ adjacent) (by
    intro row member other member' less
    obtain ⟨group,inside,rfl⟩ := List.mem_map.mp member
    obtain ⟨group',inside',rfl⟩ := List.mem_map.mp member'
    rw [groupRow_take,groupRow_take] at less
    obtain ⟨source,sourceMember,sourceKey⟩ := (mem_groupKeys tail (keyOf columns group.1)).mp (mem_map_of_mem inside)
    obtain ⟨source',sourceMember',sourceKey'⟩ := (mem_groupKeys tail (keyOf columns group'.1)).mp (mem_map_of_mem inside')
    have compared := ordered source sourceMember source' sourceMember' (by rwa [sourceKey,sourceKey'])
    rw [sourceKey,sourceKey'] at compared
    exact compareColumns_append columns _ _ _ _ .lt compared)
  refine ⟨sorted,result,perm,strict,?_,?_⟩
  · intro row member
    obtain ⟨group,inside,rfl⟩ := List.mem_map.mp (perm.mem_iff.mp member)
    rw [groupRow_take]
    refine ⟨(mem_groupKeys tail _).mp (mem_map_of_mem inside),groupRow_same tail group (groups_isGroup columns tail group inside) ?_⟩
    rw [groups_filter tail adjacent group inside]
  · intro source member
    rw [(perm.map (List.take columns.length)).mem_iff,keys,mem_groupKeys]
    exact ⟨source,member,rfl⟩

theorem specRow_append_left (rows more : IdTable Id) (key : List Id) (fresh : ∀ row ∈ more, keyOf columns row ≠ key) :
    specRow ops columns aggregates (rows ++ more) key = specRow ops columns aggregates rows key := by
  have none : more.filter (fun row => keyOf columns row = key) = [] := by
    rw [filter_eq_nil_iff]
    intro row member
    simpa using fresh row member
  simp only [specRow,filter_append,none,append_nil]

theorem specRow_append_right (rows more : IdTable Id) (key : List Id) (fresh : ∀ row ∈ rows, keyOf columns row ≠ key) :
    specRow ops columns aggregates (rows ++ more) key = specRow ops columns aggregates more key := by
  have none : rows.filter (fun row => keyOf columns row = key) = [] := by
    rw [filter_eq_nil_iff]
    intro row member
    simpa using fresh row member
  simp only [specRow,filter_append,none,nil_append]

theorem merges_isGroupTable (added tail first second out : IdTable Id) (disjoint : ∀ row ∈ added, ∀ other ∈ tail, keyOf columns row ≠ keyOf columns other)
    (left : IsGroupTable ops columns aggregates added first) (right : IsGroupTable ops columns aggregates tail second)
    (merges : Merges ops columns.length first second out) : IsGroupTable ops columns aggregates (added ++ tail) out := by
  have differ : ∀ row ∈ first, ∀ other ∈ second, row.take columns.length ≠ other.take columns.length := by
    intro row member other member' same
    obtain ⟨source,inside,key⟩ := (left.same row member).1
    obtain ⟨source',inside',key'⟩ := (right.same other member').1
    exact disjoint source inside source' inside' (by rw [key,key',same])
  have perm := merges.perm differ
  refine ⟨merges.sorted differ left.sorted right.sorted,?_,?_⟩
  · intro row member
    rcases mem_append.mp (perm.mem_iff.mp member) with inside | inside
    · obtain ⟨⟨source,sourceMember,key⟩,same⟩ := left.same row inside
      refine ⟨⟨source,mem_append_left _ sourceMember,key⟩,?_⟩
      rwa [specRow_append_left added tail _ (fun other member' => key ▸ (disjoint source sourceMember other member').symm)]
    · obtain ⟨⟨source,sourceMember,key⟩,same⟩ := right.same row inside
      refine ⟨⟨source,mem_append_right _ sourceMember,key⟩,?_⟩
      rwa [specRow_append_right added tail _ (fun other member' => key ▸ disjoint other member' source sourceMember)]
  · intro source member
    rw [(perm.map (List.take columns.length)).mem_iff,map_append,mem_append]
    rcases mem_append.mp member with inside | inside
    · exact .inl (left.complete source inside)
    · exact .inr (right.complete source inside)

omit [LinearOrder κ] in
theorem mergeSortedTail_eq (partialResult : IdTable Id) (aliases : List (Alias Id)) (tailBlocks : List (IdTable Id)) (grouped : columns ≠ []) :
    mergeSortedTailIntoPartial columns ops aliases partialResult tailBlocks =
      (sortByColumns columns ((groups columns tailBlocks.flatten).map (groupRow columns aliases))).map (mergeRows ops columns.length partialResult) := by
  unfold mergeSortedTailIntoPartial
  rw [aggregateTailBlocks_eq aliases tailBlocks grouped]
  cases sortByColumns columns ((groups columns tailBlocks.flatten).map (groupRow columns aliases)) with
  | none => rfl
  | some sorted =>
    cases sorted <;> cases partialResult <;> rfl

end Tail

end Qlever.GroupBy
